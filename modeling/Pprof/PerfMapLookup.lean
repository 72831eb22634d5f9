import Pprof.PerfMap
set_option autoImplicit false

/-! Looking an address up in a perf map, against the ranges of its lines in whole numbers. -/

namespace Pprof
open Utf8

def PerfMap.find (m : PerfMap) (addr : UInt64) : Option (List Char) :=
  (m.ranges.find? fun range =>
    decide (range.start ≤ addr.toNat) && decide (addr.toNat < range.stop)).map PerfRange.name

@[ext] structure PerfLine where
  start : Nat
  len : Nat
  name : List Char
  deriving DecidableEq

/-- The line is a start and a length in hexadecimal, which fit, and the words of a name. -/
def PerfLine.ReadFrom (line : List UInt8) (l : PerfLine) : Prop :=
  ∃ text start len words, from_utf8 line = some text ∧
    split_whitespace [] text = start :: len :: words ∧ from_str_radix start = some l.start ∧
    from_str_radix len = some l.len ∧ l.name = [' '].intercalate words

def PerfLine.Covers (l : PerfLine) (addr : UInt64) : Prop :=
  l.start ≤ addr.toNat ∧ addr.toNat < l.start+l.len

instance (l : PerfLine) (addr : UInt64) : Decidable (l.Covers addr) := by
  unfold PerfLine.Covers
  infer_instance

def PerfLine.Fits (l : PerfLine) : Prop := l.start+l.len < 2^64

def PerfLine.range (l : PerfLine) : PerfRange := ⟨l.start,l.start+l.len,l.name⟩

theorem of_line_eq {line : List UInt8} {l : PerfLine} (h : l.ReadFrom line) :
    (l.Fits → PerfRange.of_line line = .ok l.range) ∧
      (¬ l.Fits → PerfRange.of_line line = .error (.panic .overflow)) := by
  obtain ⟨text,start,len,words,htext,hparts,hstart,hlen,hname⟩ := h
  have hline : PerfRange.of_line line =
      (addUsize l.start l.len).mapError Stop.panic >>= fun stop => pure ⟨l.start,stop,l.name⟩ := by
    simp only [PerfRange.of_line,htext,Stop.of,bind,Except.bind,hparts,List.getElem?_cons_zero,
      List.getElem?_cons_succ,Option.bind_some,hstart,hlen,List.drop_succ_cons,List.drop_zero,
      hname]
  rw [hline]
  constructor
  · intro hfits
    have hadd : addUsize l.start l.len = .ok (l.start+l.len) := if_pos hfits
    rw [hadd]
    rfl
  · intro hfits
    have hadd : addUsize l.start l.len = .error .overflow := if_neg hfits
    rw [hadd]
    rfl

theorem lines_eq {lines : List (List UInt8)} {ls : List PerfLine}
    (h : List.Forall₂ PerfLine.ReadFrom lines ls) :
    ((∀ l ∈ ls, l.Fits) → lines.mapM PerfRange.of_line = .ok (ls.map PerfLine.range)) ∧
      (¬ (∀ l ∈ ls, l.Fits) →
        lines.mapM PerfRange.of_line = .error (.panic .overflow)) := by
  induction h with
  | nil => exact ⟨fun _ => rfl,fun h => absurd nofun h⟩
  | @cons line l lines ls hl _ ih =>
    obtain ⟨hok,herr⟩ := of_line_eq hl
    rw [List.mapM_cons]
    by_cases hfits : l.Fits
    · rw [hok hfits]
      simp only [List.forall_mem_cons,hfits,true_and]
      refine ⟨fun h => ?_,fun h => ?_⟩
      · rw [ih.1 h]
        rfl
      · rw [ih.2 h]
        rfl
    · rw [herr hfits]
      exact ⟨fun h => absurd (h l List.mem_cons_self) hfits,fun _ => rfl⟩

theorem new_of_lines {content : List UInt8} {ls : List PerfLine}
    (h : List.Forall₂ PerfLine.ReadFrom (lines [] content) ls) :
    ((∀ l ∈ ls, l.Fits) → PerfMap.new content = .ok ⟨ls.map PerfLine.range⟩) ∧
      (¬ (∀ l ∈ ls, l.Fits) → PerfMap.new content = .error (.panic .overflow)) := by
  obtain ⟨hok,herr⟩ := lines_eq h
  refine ⟨fun h => ?_,fun h => ?_⟩
  · rw [PerfMap.new,hok h]
    rfl
  · rw [PerfMap.new,herr h]
    rfl

theorem find_ranges (ls : List PerfLine) (addr : UInt64) :
    PerfMap.find ⟨ls.map PerfLine.range⟩ addr =
      (ls.find? fun l => decide (l.Covers addr)).map PerfLine.name := by
  have hcovers : ((fun range => decide (range.start ≤ addr.toNat) &&
      decide (addr.toNat < range.stop)) ∘ PerfLine.range) = fun l => decide (l.Covers addr) :=
    funext fun l => (Bool.decide_and _ _).symm
  rw [PerfMap.find,List.find?_map,Option.map_map,hcovers]
  rfl

/-- A perf map is read, and every address is found in the first line that covers it, just if
all ranges end within the address space. -/
theorem lookup_exact_iff {content : List UInt8} {ls : List PerfLine}
    (h : List.Forall₂ PerfLine.ReadFrom (lines [] content) ls) :
    (∃ m, PerfMap.new content = .ok m ∧ ∀ addr, m.find addr =
        (ls.find? fun l => decide (l.Covers addr)).map PerfLine.name) ↔
      ∀ l ∈ ls, l.Fits := by
  obtain ⟨hok,herr⟩ := new_of_lines h
  constructor
  · rintro ⟨m,hm,-⟩
    by_contra hfits
    rw [herr hfits] at hm
    cases hm
  · exact fun hfits => ⟨_,hok hfits,find_ranges ls⟩

theorem readFrom_f : PerfLine.ReadFrom [49,32,50,32,102] ⟨1,2,['f']⟩ :=
  ⟨_,['1'],['2'],[['f']],rfl,by decide,by decide,by decide,by decide⟩

theorem lookup_exact_iff_f : ∃ m, PerfMap.new [49,32,50,32,102,10] = .ok m ∧
    m.find 2 = some ['f'] ∧ m.find 3 = none := by
  have hfits : ∀ l ∈ [(⟨1,2,['f']⟩ : PerfLine)], l.Fits := by simp [PerfLine.Fits]
  have hlines : (lines [] [49,32,50,32,102,10]).Forall₂ PerfLine.ReadFrom [⟨1,2,['f']⟩] :=
    .cons readFrom_f .nil
  obtain ⟨m,hm,hfind⟩ := (lookup_exact_iff hlines).mpr hfits
  exact ⟨m,hm,hfind 2,hfind 3⟩

def lastAddress : List UInt8 := List.replicate 16 102 ++ [32,49,32,102,10]

theorem last_address_panics : (lines [] lastAddress).Forall₂ PerfLine.ReadFrom
    [⟨2^64-1,1,['f']⟩] ∧ PerfMap.new lastAddress = .error (.panic .overflow) := by
  refine ⟨.cons ⟨_,List.replicate 16 'f',['1'],[['f']],rfl,by decide,by decide,by decide,
    by decide⟩ .nil,rfl⟩

end Pprof
