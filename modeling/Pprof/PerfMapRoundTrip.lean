import Pprof.Frames
import Pprof.PerfMapLookup
import Pprof.Lib.Digits
import Pprof.Lib.Words
set_option autoImplicit false

/-! Printing the lines of a perf map and reading them back. The words of a name are joined with
one blank between any two, so a name comes back as it was if that is how it is spaced. -/

namespace Pprof
open Utf8 Words

def PerfLine.text (l : PerfLine) : List Char :=
  Nat.toDigits 16 l.start ++ ' ' :: (Nat.toDigits 16 l.len ++ ' ' :: l.name)

def PerfMap.print (ls : List PerfLine) : List UInt8 := ls.flatMap fun l => encode l.text ++ [10]

/-- The range is in `usize`, and nothing of the name is lost at the ends of the line. -/
structure PerfLine.Printable (l : PerfLine) : Prop where
  fits : l.Fits
  one_line : '\n' ∉ l.name
  trimmed : Trimmed is_whitespace l.name

def PerfLine.joined (l : PerfLine) : PerfLine :=
  { l with name := [' '].intercalate (words is_whitespace [] l.name) }

theorem split_whitespace_eq (part cs : List Char) :
    split_whitespace part cs = words is_whitespace part cs := by
  induction cs generalizing part with
  | nil =>
    rw [split_whitespace,words]
  | cons c cs ih =>
    rw [split_whitespace,words,ih,ih]

/-! Hexadecimal numbers. -/

theorem digitChar_hex : ∀ d, d < 16 → to_digit d.digitChar = some d ∧
    is_whitespace d.digitChar = false ∧ d.digitChar ≠ '+' ∧ d.digitChar ≠ '\n' := by
  decide

theorem hex_word (n : Nat) : IsWord is_whitespace (Nat.toDigits 16 n) := by
  refine ⟨Nat.toDigits_ne_nil,fun c hc => ?_⟩
  obtain ⟨d,hd,rfl⟩ := Digits.mem_toDigits (by decide) hc
  exact (digitChar_hex d hd).2.1

theorem from_str_radix_hex {n : Nat} (h : n < 2^64) :
    from_str_radix (Nat.toDigits 16 n) = some n := by
  have hread : (Nat.toDigits 16 n).foldlM (Digits.readDigit to_digit 16 (2^64)) 0 = some n :=
    Digits.read_toDigits (by decide) (fun d hd => (digitChar_hex d hd).1) h
  have hne : Nat.toDigits 16 n ≠ [] := Nat.toDigits_ne_nil
  have hplus : '+' ∉ Nat.toDigits 16 n := by
    intro hmem
    obtain ⟨d,hd,heq⟩ := Digits.mem_toDigits (by decide) hmem
    exact (digitChar_hex d hd).2.2.1 heq.symm
  cases hdigits : Nat.toDigits 16 n with
  | nil => exact absurd hdigits hne
  | cons c cs =>
    rw [hdigits] at hplus hread
    have hc : c ≠ '+' := fun h => hplus (h ▸ List.mem_cons_self)
    rw [from_str_radix,if_neg (List.cons_ne_nil c cs)]
    · exact hread
    · rintro rest heq
      cases heq
      exact hc rfl

/-! The lines of what is printed. -/

theorem lines_line {bytes : List UInt8} (h : 10 ∉ bytes) (buf rest : List UInt8) :
    lines buf (bytes ++ 10 :: rest) = strip_cr (buf ++ bytes) :: lines [] rest := by
  induction bytes generalizing buf with
  | nil => rw [List.nil_append,lines,if_pos rfl,List.append_nil]
  | cons b bytes ih =>
    simp only [List.mem_cons,not_or] at h
    rw [List.cons_append,lines,if_neg (Ne.symm h.1),ih h.2,List.append_assoc]
    rfl

theorem newline_encode {text : List Char} (h : '\n' ∉ text) : 10 ∉ encode text := by
  intro hmem
  obtain ⟨c,hc,hb⟩ := List.mem_flatMap.mp hmem
  rw [ascii_encode (by decide) hb] at hc
  exact h hc

theorem strip_cr_encode {text : List Char} (h : ∀ c ∈ text.getLast?, c ≠ '\r') :
    strip_cr (encode text) = encode text := by
  refine if_neg fun hlast => ?_
  rcases List.eq_nil_or_concat text with rfl | ⟨front,c,rfl⟩
  · cases hlast
  · have hne : String.utf8EncodeChar c ≠ [] := by
      obtain ⟨b,conts,hc,-⟩ := decodeOne_encode c []
      simp [hc]
    have hone : encode [c] = String.utf8EncodeChar c := by simp [encode]
    rw [List.concat_eq_append,encode_append,hone,List.getLast?_append_of_ne_nil _ hne] at hlast
    exact h c (by simp) (ascii_encode (by decide) (List.mem_of_getLast? hlast))

theorem newline_text {l : PerfLine} (h : l.Printable) : '\n' ∉ l.text := by
  have hhex (n : Nat) : '\n' ∉ Nat.toDigits 16 n := by
    intro hmem
    obtain ⟨d,hd,heq⟩ := Digits.mem_toDigits (by decide) hmem
    exact (digitChar_hex d hd).2.2.2 heq.symm
  simp [PerfLine.text,hhex,h.one_line]

theorem last_text {l : PerfLine} (h : l.Printable) : ∀ c ∈ l.text.getLast?, c ≠ '\r' := by
  rintro c hc rfl
  have htext : l.text = (Nat.toDigits 16 l.start ++ ' ' :: Nat.toDigits 16 l.len ++ [' ']) ++
      l.name := by simp [PerfLine.text]
  rw [htext] at hc
  by_cases hne : l.name = []
  · rw [hne,List.append_nil,List.getLast?_concat] at hc
    cases hc
  · rw [List.getLast?_append_of_ne_nil _ hne] at hc
    have hblank : is_whitespace '\r' = false := h.trimmed.2 _ hc
    cases hblank

theorem lines_print {ls : List PerfLine} (h : ∀ l ∈ ls, l.Printable) :
    lines [] (PerfMap.print ls) = ls.map fun l => encode l.text := by
  induction ls with
  | nil => rfl
  | cons l ls ih =>
    obtain ⟨hl,hls⟩ := List.forall_mem_cons.mp h
    have hprint : PerfMap.print (l :: ls) = encode l.text ++ 10 :: PerfMap.print ls := by
      simp [PerfMap.print]
    rw [hprint,lines_line (newline_encode (newline_text hl)),List.nil_append,
      strip_cr_encode (last_text hl),ih hls]
    rfl

theorem readFrom_text {l : PerfLine} (h : l.Printable) :
    PerfLine.ReadFrom (encode l.text) l.joined := by
  have hfits : l.start+l.len < 2^64 := h.fits
  refine ⟨l.text,Nat.toDigits 16 l.start,Nat.toDigits 16 l.len,words is_whitespace [] l.name,
    from_utf8_encode _,?_,from_str_radix_hex (by omega),from_str_radix_hex (by omega),rfl⟩
  rw [split_whitespace_eq,PerfLine.text,words_cons (hex_word _) rfl,words_cons (hex_word _) rfl]

theorem new_print {ls : List PerfLine} (h : ∀ l ∈ ls, l.Printable) :
    PerfMap.new (PerfMap.print ls) = .ok ⟨ls.map fun l => l.joined.range⟩ := by
  have hread : (lines [] (PerfMap.print ls)).Forall₂ PerfLine.ReadFrom
      (ls.map PerfLine.joined) := by
    rw [lines_print h,List.forall₂_map_left_iff,List.forall₂_map_right_iff,List.forall₂_same]
    exact fun l hl => readFrom_text (h l hl)
  have hfits : ∀ l ∈ ls.map PerfLine.joined, l.Fits := by
    rw [List.forall_mem_map]
    exact fun l hl => (h l hl).fits
  rw [(new_of_lines hread).1 hfits,List.map_map]
  rfl

theorem joined_eq_iff {l : PerfLine} (h : l.Printable) :
    l.joined = l ↔ SingleSpaced is_whitespace ' ' l.name := by
  rw [← intercalate_words_iff h.trimmed]
  constructor
  · exact congrArg PerfLine.name
  · intro hname
    rw [PerfLine.joined,hname]

/-- The map that was printed comes back just if every name has one plain blank between any two
of its words. -/
theorem round_trip_iff {ls : List PerfLine} (h : ∀ l ∈ ls, l.Printable) :
    PerfMap.new (PerfMap.print ls) = .ok ⟨ls.map PerfLine.range⟩ ↔
      ∀ l ∈ ls, SingleSpaced is_whitespace ' ' l.name := by
  rw [new_print h,Except.ok.injEq,PerfMap.mk.injEq,List.map_inj_left]
  refine forall₂_congr fun l hl => ?_
  rw [← joined_eq_iff (h l hl)]
  simp [PerfLine.range,PerfLine.joined,PerfLine.ext_iff]

def Symbol.from_perfmap (name : List Char) : Symbol := ⟨some (encode name),none,none,none⟩

theorem address_shown [Resolver] {ls : List PerfLine} (h : ∀ l ∈ ls, l.Printable)
    (hspaced : ∀ l ∈ ls, SingleSpaced is_whitespace ' ' l.name) :
    ∃ m, PerfMap.new (PerfMap.print ls) = .ok m ∧ ∀ addr,
      (m.find addr).map (fun name => (Symbol.from_perfmap name).get_name) =
        (ls.find? fun l => decide (l.Covers addr)).map fun l =>
          demangle (String.ofList l.name) := by
  have hjoined : (ls.map fun l => l.joined.range) = ls.map PerfLine.range :=
    List.map_congr_left fun l hl => congrArg _ ((joined_eq_iff (h l hl)).mpr (hspaced l hl))
  have hshown : ∀ name, (Symbol.from_perfmap name).get_name = demangle (String.ofList name) :=
    fun name => congrArg demangle (from_utf8_lossy_encode name)
  refine ⟨_,new_print h,fun addr => ?_⟩
  simp only [hjoined,find_ranges,Option.map_map,Function.comp_def,hshown]

def spaced (blanks : Nat) : PerfLine := ⟨16,32,'g' :: List.replicate blanks ' ' ++ ['h']⟩

theorem spaced_printable (blanks : Nat) : (spaced blanks).Printable := by
  refine ⟨by simp [PerfLine.Fits,spaced],by simp [spaced],?_,?_⟩
  · rintro c hc
    cases hc
    rfl
  · rintro c hc
    rw [spaced,List.getLast?_concat] at hc
    cases hc
    rfl

theorem round_trip_iff_spaced : PerfMap.new (PerfMap.print [spaced 1]) =
    .ok ⟨[(spaced 1).range]⟩ := by
  have hprintable : ∀ l ∈ [spaced 1], l.Printable := by simp [spaced_printable]
  refine (round_trip_iff hprintable).mpr ?_
  simp [SingleSpaced,spaced,is_whitespace]

theorem blanks_collapse : (∀ l ∈ [spaced 2], l.Printable) ∧
    PerfMap.new (PerfMap.print [spaced 2]) = .ok ⟨[(spaced 1).range]⟩ ∧
    (spaced 1).range ≠ (spaced 2).range := by
  have hprintable : ∀ l ∈ [spaced 2], l.Printable := by simp [spaced_printable]
  exact ⟨hprintable,new_print hprintable,by decide⟩

end Pprof
