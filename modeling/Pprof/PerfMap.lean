import Pprof.Machine
import Pprof.Lib.Utf8
set_option autoImplicit false

/-! The perf map: a text file in which each line names a range of addresses. -/

namespace Pprof
open Utf8

/-- What ends the reading of a map before the end of the file: a `?` that returns `None`,
or a panic. -/
inductive Stop where
  | early
  | panic (panic : Panic)
  deriving DecidableEq, Repr

def Stop.of {α : Type} : Option α → Except Stop α
  | none => .error .early
  | some a => .ok a

structure PerfRange where
  start : Nat
  stop : Nat
  name : List Char
  deriving DecidableEq, Repr

structure PerfMap where
  ranges : List PerfRange
  deriving DecidableEq, Repr

def is_whitespace (c : Char) : Bool :=
  let n := c.toNat
  9 ≤ n && n ≤ 13 || n == 0x20 || n == 0x85 || n == 0xA0 || n == 0x1680 ||
    0x2000 ≤ n && n ≤ 0x200A || n == 0x2028 || n == 0x2029 || n == 0x202F || n == 0x205F ||
    n == 0x3000

def split_whitespace (part : List Char) : List Char → List (List Char)
  | [] => if part = [] then [] else [part]
  | c :: cs =>
    if is_whitespace c then
      if part = [] then split_whitespace [] cs else part :: split_whitespace [] cs
    else split_whitespace (part ++ [c]) cs

def to_digit (c : Char) : Option Nat :=
  let n := c.toNat
  if 48 ≤ n ∧ n ≤ 57 then some (n-48)
  else if 97 ≤ n ∧ n ≤ 102 then some (n-87)
  else if 65 ≤ n ∧ n ≤ 70 then some (n-55)
  else none

/-- `usize::from_str_radix(_, 16)`, which takes a leading plus. -/
def from_str_radix (cs : List Char) : Option Nat :=
  let digits := match cs with
    | '+' :: rest => rest
    | _ => cs
  if digits = [] then none
  else digits.foldlM (fun n c => (to_digit c).bind fun d =>
    if n*16+d < 2^64 then some (n*16+d) else none) 0

def PerfRange.of_line (line : List UInt8) : Except Stop PerfRange := do
  let line ← Stop.of (from_utf8 line)
  let parts := split_whitespace [] line
  let start ← Stop.of (parts[0]?.bind from_str_radix)
  let len ← Stop.of (parts[1]?.bind from_str_radix)
  let name := [' '].intercalate (parts.drop 2)
  let stop ← (addUsize start len).mapError .panic
  pure ⟨start,stop,name⟩

/-- A line that ended in a newline loses a carriage return as well. -/
def strip_cr (line : List UInt8) : List UInt8 :=
  if line.getLast? = some 13 then line.dropLast else line

def lines (buf : List UInt8) : List UInt8 → List (List UInt8)
  | [] => if buf = [] then [] else [buf]
  | b :: bytes => if b = 10 then strip_cr buf :: lines [] bytes else lines (buf ++ [b]) bytes

def PerfMap.new (content : List UInt8) : Except Stop PerfMap := do
  let ranges ← (lines [] content).mapM PerfRange.of_line
  pure ⟨ranges⟩

/-- `PerfMap::new` at work: it has read `pos` bytes, the last of them into `buf`. -/
structure MapReader where
  pos : Nat
  buf : List UInt8
  ranges : List PerfRange
  deriving DecidableEq, Repr

def MapReader.start : MapReader := ⟨0,[],[]⟩

def MapReader.byte (r : MapReader) (b : UInt8) : Except Stop MapReader :=
  if b = 10 then do
    let range ← PerfRange.of_line (strip_cr r.buf)
    pure ⟨r.pos+1,[],r.ranges ++ [range]⟩
  else .ok { r with pos := r.pos+1, buf := r.buf ++ [b] }

/-- One `read` that gets at most `n` bytes, and the lines that they complete. At the end of the
file an unfinished line counts as one, and the next `read` ends the loop (`none`) unless the
file has grown. -/
def MapReader.read (content : List UInt8) (n : Nat) (r : MapReader) :
    Except Stop (Option MapReader) :=
  match (content.drop r.pos).take n with
  | [] =>
    if r.buf = [] then .ok none
    else do
      let range ← PerfRange.of_line r.buf
      pure (some { r with buf := [], ranges := r.ranges ++ [range] })
  | bytes => do
    let r ← bytes.foldlM MapReader.byte r
    pure (some r)

inductive MapReader.Reads (content : List UInt8) (r : MapReader) : Prop where
  | part (le : r.pos ≤ content.length)
      (read : (content.take r.pos).foldlM MapReader.byte .start = .ok r)
  | whole (pos : r.pos = content.length) (buf : r.buf = [])
      (new : PerfMap.new content = .ok ⟨r.ranges⟩)

def MapReader.finish (r : MapReader) : Except Stop PerfMap := do
  let last ← (lines r.buf []).mapM PerfRange.of_line
  pure ⟨r.ranges ++ last⟩

theorem bytes_finish (bytes : List UInt8) (r : MapReader) :
    bytes.foldlM MapReader.byte r >>= MapReader.finish =
      (lines r.buf bytes).mapM PerfRange.of_line >>= fun rest => pure ⟨r.ranges ++ rest⟩ := by
  induction bytes generalizing r with
  | nil => rfl
  | cons b bytes ih =>
    rw [List.foldlM_cons]
    by_cases hb : b = 10
    · simp only [MapReader.byte,hb,if_true,lines,List.mapM_cons]
      cases PerfRange.of_line (strip_cr r.buf) with
      | error err => rfl
      | ok range =>
        have hrest := ih ⟨r.pos+1,[],r.ranges ++ [range]⟩
        refine Eq.trans hrest ?_
        cases (lines [] bytes).mapM PerfRange.of_line <;>
          simp [bind,Except.bind,pure,Except.pure]
    · simp only [MapReader.byte,hb,if_false,lines]
      exact ih { r with pos := r.pos+1, buf := r.buf ++ [b] }

theorem new_eq (content : List UInt8) :
    PerfMap.new content = content.foldlM MapReader.byte .start >>= MapReader.finish :=
  (bytes_finish content .start).symm

theorem bytes_pos {bytes : List UInt8} {r r' : MapReader}
    (h : bytes.foldlM MapReader.byte r = .ok r') : r'.pos = r.pos + bytes.length := by
  induction bytes generalizing r with
  | nil =>
    cases h
    rfl
  | cons b bytes ih =>
    rw [List.foldlM_cons,bind_eq_ok] at h
    obtain ⟨t,ht,hrest⟩ := h
    have hpos : t.pos = r.pos+1 := by
      unfold MapReader.byte at ht
      split at ht
      · rw [bind_eq_ok] at ht
        obtain ⟨range,-,hp⟩ := ht
        cases hp
        rfl
      · cases ht
        rfl
    rw [ih hrest,hpos,List.length_cons]
    omega

theorem read_pos {content : List UInt8} {n : Nat} {r r' : MapReader}
    (hbuf : r.pos = 0 → r.buf = []) (h : r.read content n = .ok (some r')) : 0 < r'.pos := by
  unfold MapReader.read at h
  split at h
  · split at h
    · cases h
    · rename_i hne
      obtain ⟨range,-,hp⟩ := bind_eq_ok.mp h
      cases hp
      exact Nat.pos_of_ne_zero fun h0 => hne (hbuf h0)
  · rename_i bytes hne
    obtain ⟨t,ht,hp⟩ := bind_eq_ok.mp h
    cases hp
    have hlen := List.length_pos_of_ne_nil hne
    rw [bytes_pos ht]
    omega

theorem reads_start (content : List UInt8) : MapReader.start.Reads content :=
  .part (Nat.zero_le _) rfl

theorem reads_bytes {content : List UInt8} {r : MapReader} (h : r.Reads content) {n : Nat}
    (hb : (content.drop r.pos).take n ≠ []) :
    r.read content n =
      (content.take (r.pos + n)).foldlM MapReader.byte .start >>= fun r => pure (some r) := by
  cases h with
  | whole pos buf new =>
    rw [pos,List.drop_length,List.take_nil] at hb
    exact absurd rfl hb
  | part le read =>
    rw [List.take_add,List.foldlM_append,read]
    unfold MapReader.read
    split
    · rename_i hnil
      exact absurd hnil hb
    · rfl

theorem read_eof {content : List UInt8} {r : MapReader} {n : Nat}
    (hb : (content.drop r.pos).take n = []) : r.read content n =
      if r.buf = [] then .ok none
      else PerfRange.of_line r.buf >>= fun range =>
        pure (some { r with buf := [], ranges := r.ranges ++ [range] }) := by
  unfold MapReader.read
  rw [hb]

theorem reads_eof {content : List UInt8} {r : MapReader} (h : r.Reads content) {n : Nat}
    (hn : 0 < n) (hb : (content.drop r.pos).take n = []) :
    r.pos = content.length ∧ PerfMap.new content = r.finish := by
  cases h with
  | whole pos buf new =>
    refine ⟨pos,?_⟩
    rw [new,MapReader.finish,buf]
    simp [lines,bind,Except.bind,pure,Except.pure]
  | part le read =>
    have hpos : r.pos = content.length := by
      rcases List.take_eq_nil_iff.mp hb with h0 | hd
      · omega
      · have hle := List.drop_eq_nil_iff.mp hd
        omega
    refine ⟨hpos,?_⟩
    rw [hpos,List.take_length] at read
    rw [new_eq,read]
    rfl

theorem reads_end {content : List UInt8} {r : MapReader} (h : r.Reads content) {n : Nat}
    (hn : 0 < n) (hr : r.read content n = .ok none) :
    PerfMap.new content = .ok ⟨r.ranges⟩ := by
  by_cases hb : (content.drop r.pos).take n = []
  · rw [(reads_eof h hn hb).2,MapReader.finish]
    rw [read_eof hb] at hr
    split at hr
    · rename_i hbuf
      simp [hbuf,lines,bind,Except.bind,pure,Except.pure]
    · obtain ⟨range,-,hp⟩ := bind_eq_ok.mp hr
      cases hp
  · rw [reads_bytes h hb] at hr
    obtain ⟨t,-,hp⟩ := bind_eq_ok.mp hr
    cases hp

theorem reads_read {content : List UInt8} {r r' : MapReader} (h : r.Reads content) {n : Nat}
    (hn : 0 < n) (hr : r.read content n = .ok (some r')) : r'.Reads content := by
  by_cases hb : (content.drop r.pos).take n = []
  · obtain ⟨hpos,hnew⟩ := reads_eof h hn hb
    rw [read_eof hb] at hr
    split at hr
    · cases hr
    · rename_i hbuf
      obtain ⟨range,hrange,hp⟩ := bind_eq_ok.mp hr
      cases hp
      refine .whole hpos rfl ?_
      rw [hnew,MapReader.finish]
      simp [hbuf,lines,hrange,bind,Except.bind,pure,Except.pure]
  · rw [reads_bytes h hb] at hr
    obtain ⟨t,ht,hp⟩ := bind_eq_ok.mp hr
    cases hp
    have hpos := bytes_pos ht
    have hlen : r'.pos = min (r.pos+n) content.length := by
      rw [hpos,List.length_take]
      exact Nat.zero_add _
    have htake : content.take r'.pos = content.take (r.pos+n) := by
      rw [hlen,Nat.min_def]
      split
      · rfl
      · rw [List.take_length,List.take_of_length_le (by omega)]
    exact .part (by omega) (by rw [htake,ht])

theorem reads_error {content : List UInt8} {r : MapReader} (h : r.Reads content) {n : Nat}
    (hn : 0 < n) {stop : Stop} (hr : r.read content n = .error stop) :
    PerfMap.new content = .error stop := by
  by_cases hb : (content.drop r.pos).take n = []
  · rw [(reads_eof h hn hb).2,MapReader.finish]
    rw [read_eof hb] at hr
    split at hr
    · cases hr
    · rename_i hbuf
      cases hrange : PerfRange.of_line r.buf with
      | error err =>
        rw [hrange] at hr
        cases hr
        simp [hbuf,lines,hrange,bind,Except.bind]
      | ok range =>
        rw [hrange] at hr
        cases hr
  · rw [reads_bytes h hb] at hr
    have hbytes : (content.take (r.pos+n)).foldlM MapReader.byte .start = .error stop := by
      cases hf : (content.take (r.pos+n)).foldlM MapReader.byte .start with
      | error err =>
        rw [hf] at hr
        cases hr
        rfl
      | ok t =>
        rw [hf] at hr
        cases hr
    rw [new_eq]
    have hsplit : content = content.take (r.pos+n) ++ content.drop (r.pos+n) :=
      (List.take_append_drop _ _).symm
    rw [hsplit,List.foldlM_append,hbytes]
    rfl

end Pprof
