import Mathlib.Algebra.Ring.Nat
import Mathlib.Data.List.Basic
set_option autoImplicit false

/-! Decoding of bytes that should be UTF-8. Every maximal piece that no character
starts with is replaced by one U+FFFD. -/

namespace Pprof.Utf8

def replacement : Char := Char.ofNat 0xFFFD

def isCont (b : UInt8) : Bool := 0x80 ≤ b && b ≤ 0xBF

def second3 (b c : UInt8) : Bool :=
  (b == 0xE0 && 0xA0 ≤ c && c ≤ 0xBF) || (0xE1 ≤ b && b ≤ 0xEC && isCont c) ||
    (b == 0xED && 0x80 ≤ c && c ≤ 0x9F) || (0xEE ≤ b && b ≤ 0xEF && isCont c)

def second4 (b c : UInt8) : Bool :=
  (b == 0xF0 && 0x90 ≤ c && c ≤ 0xBF) || (0xF1 ≤ b && b ≤ 0xF3 && isCont c) ||
    (b == 0xF4 && 0x80 ≤ c && c ≤ 0x8F)

def assemble (lead mask : UInt8) (conts : List UInt8) : Char :=
  Char.ofNat (conts.foldl (fun n b => n*64+(b &&& 0x3F).toNat) (lead &&& mask).toNat)

/-- One character or one replacement, and the number of bytes it takes after the first. -/
def decodeOne (b : UInt8) (rest : List UInt8) : Char × Nat :=
  if b < 0x80 then (Char.ofNat b.toNat,0)
  else if 0xC2 ≤ b && b ≤ 0xDF then
    match rest with
    | c :: _ => if isCont c then (assemble b 0x1F [c],1) else (replacement,0)
    | [] => (replacement,0)
  else if 0xE0 ≤ b && b ≤ 0xEF then
    match rest with
    | c :: d :: _ =>
      if second3 b c then if isCont d then (assemble b 0x0F [c,d],2) else (replacement,1)
      else (replacement,0)
    | [c] => if second3 b c then (replacement,1) else (replacement,0)
    | [] => (replacement,0)
  else if 0xF0 ≤ b && b ≤ 0xF4 then
    match rest with
    | c :: d :: e :: _ =>
      if second4 b c then
        if isCont d then if isCont e then (assemble b 0x07 [c,d,e],3) else (replacement,2)
        else (replacement,1)
      else (replacement,0)
    | [c,d] =>
      if second4 b c then if isCont d then (replacement,2) else (replacement,1)
      else (replacement,0)
    | [c] => if second4 b c then (replacement,1) else (replacement,0)
    | [] => (replacement,0)
  else (replacement,0)

/-- `skip` bytes belong to the character decoded last. -/
def decode : Nat → List UInt8 → List Char
  | _, [] => []
  | skip+1, _ :: rest => decode skip rest
  | 0, b :: rest => (decodeOne b rest).1 :: decode (decodeOne b rest).2 rest

def from_utf8_lossy (bytes : List UInt8) : String := String.ofList (decode 0 bytes)

def following (b : UInt8) : Option Nat :=
  if b < 0x80 then some 0
  else if 0xC2 ≤ b && b ≤ 0xDF then some 1
  else if 0xE0 ≤ b && b ≤ 0xEF then some 2
  else if 0xF0 ≤ b && b ≤ 0xF4 then some 3
  else none

def valid : Nat → List UInt8 → Bool
  | _, [] => true
  | skip+1, _ :: rest => valid skip rest
  | 0, b :: rest => following b == some (decodeOne b rest).2 && valid (decodeOne b rest).2 rest

def from_utf8 (bytes : List UInt8) : Option (List Char) :=
  if valid 0 bytes then some (decode 0 bytes) else none

/-! The encoding of a character is decoded as that character. -/

theorem toNat_byte {n : Nat} (h : n < 256) : (UInt8.ofNat n).toNat = n :=
  UInt8.toNat_ofNat_of_lt' h

theorem toNat_low (b : UInt8) {mask : UInt8} (k : Nat) (h : mask.toNat = 2^k-1) :
    (b &&& mask).toNat = b.toNat%2^k := by
  rw [UInt8.toNat_and,h,Nat.and_two_pow_sub_one_eq_mod]

theorem isCont_iff {b : UInt8} : isCont b = true ↔ 0x80 ≤ b.toNat ∧ b.toNat ≤ 0xBF := by
  simp [isCont,UInt8.le_iff_toNat_le]

theorem second3_iff {b c : UInt8} : second3 b c = true ↔
    (b.toNat = 0xE0 ∧ 0xA0 ≤ c.toNat ∧ c.toNat ≤ 0xBF) ∨
    (0xE1 ≤ b.toNat ∧ b.toNat ≤ 0xEC ∧ 0x80 ≤ c.toNat ∧ c.toNat ≤ 0xBF) ∨
    (b.toNat = 0xED ∧ 0x80 ≤ c.toNat ∧ c.toNat ≤ 0x9F) ∨
    (0xEE ≤ b.toNat ∧ b.toNat ≤ 0xEF ∧ 0x80 ≤ c.toNat ∧ c.toNat ≤ 0xBF) := by
  simp [second3,isCont_iff,UInt8.le_iff_toNat_le,← UInt8.toNat_inj,or_assoc,and_assoc]

theorem second4_iff {b c : UInt8} : second4 b c = true ↔
    (b.toNat = 0xF0 ∧ 0x90 ≤ c.toNat ∧ c.toNat ≤ 0xBF) ∨
    (0xF1 ≤ b.toNat ∧ b.toNat ≤ 0xF3 ∧ 0x80 ≤ c.toNat ∧ c.toNat ≤ 0xBF) ∨
    (b.toNat = 0xF4 ∧ 0x80 ≤ c.toNat ∧ c.toNat ≤ 0x8F) := by
  simp [second4,isCont_iff,UInt8.le_iff_toNat_le,← UInt8.toNat_inj,or_assoc,and_assoc]

theorem in_iff {b : UInt8} {lo hi : UInt8} :
    (decide (lo ≤ b) && decide (b ≤ hi)) = true ↔ lo.toNat ≤ b.toNat ∧ b.toNat ≤ hi.toNat := by
  simp [UInt8.le_iff_toNat_le]

section Lead
variable {b : UInt8}

theorem lead_one (h : b.toNat < 0x80) (rest : List UInt8) :
    following b = some 0 ∧ decodeOne b rest = (Char.ofNat b.toNat,0) := by
  have hlt : b < 0x80 := UInt8.lt_iff_toNat_lt.mpr h
  exact ⟨if_pos hlt,by rw [decodeOne.eq_def,if_pos hlt]⟩

theorem not_ascii (h : 0x80 ≤ b.toNat) : ¬ b < 0x80 := by
  rw [UInt8.lt_iff_toNat_lt]
  exact Nat.not_lt.mpr h

theorem lead_two (hlo : 0xC2 ≤ b.toNat) (hhi : b.toNat ≤ 0xDF) {c : UInt8}
    (hc : isCont c = true) (rest : List UInt8) :
    following b = some 1 ∧ decodeOne b (c :: rest) = (assemble b 0x1F [c],1) := by
  have hge := not_ascii (b := b) (by omega)
  have hin : (0xC2 ≤ b && b ≤ 0xDF) = true := in_iff.mpr ⟨hlo,hhi⟩
  refine ⟨by rw [following,if_neg hge,if_pos hin],?_⟩
  rw [decodeOne.eq_def,if_neg hge,if_pos hin]
  simp only [hc,if_true]

theorem lead_three (hlo : 0xE0 ≤ b.toNat) (hhi : b.toNat ≤ 0xEF) {c d : UInt8}
    (hc : second3 b c = true) (hd : isCont d = true) (rest : List UInt8) :
    following b = some 2 ∧ decodeOne b (c :: d :: rest) = (assemble b 0x0F [c,d],2) := by
  have hge := not_ascii (b := b) (by omega)
  have htwo : ¬ (0xC2 ≤ b && b ≤ 0xDF) = true := fun h => by
    have hle : b.toNat ≤ 0xDF := (in_iff.mp h).2
    omega
  have hin : (0xE0 ≤ b && b ≤ 0xEF) = true := in_iff.mpr ⟨hlo,hhi⟩
  refine ⟨by rw [following,if_neg hge,if_neg htwo,if_pos hin],?_⟩
  rw [decodeOne.eq_def,if_neg hge,if_neg htwo,if_pos hin]
  simp only [hc,hd,if_true]

theorem lead_four (hlo : 0xF0 ≤ b.toNat) (hhi : b.toNat ≤ 0xF4) {c d e : UInt8}
    (hc : second4 b c = true) (hd : isCont d = true) (he : isCont e = true)
    (rest : List UInt8) : following b = some 3 ∧
      decodeOne b (c :: d :: e :: rest) = (assemble b 0x07 [c,d,e],3) := by
  have hge := not_ascii (b := b) (by omega)
  have htwo : ¬ (0xC2 ≤ b && b ≤ 0xDF) = true := fun h => by
    have hle : b.toNat ≤ 0xDF := (in_iff.mp h).2
    omega
  have hthree : ¬ (0xE0 ≤ b && b ≤ 0xEF) = true := fun h => by
    have hle : b.toNat ≤ 0xEF := (in_iff.mp h).2
    omega
  have hin : (0xF0 ≤ b && b ≤ 0xF4) = true := in_iff.mpr ⟨hlo,hhi⟩
  refine ⟨by rw [following,if_neg hge,if_neg htwo,if_neg hthree,if_pos hin],?_⟩
  rw [decodeOne.eq_def,if_neg hge,if_neg htwo,if_neg hthree,if_pos hin]
  simp only [hc,hd,he,if_true]

end Lead

theorem cont_low {n : Nat} (h : n < 0x40) :
    isCont (UInt8.ofNat (n+0x80)) = true ∧ (UInt8.ofNat (n+0x80) &&& 0x3F).toNat = n := by
  have hn : (UInt8.ofNat (n+0x80)).toNat = n+0x80 := toNat_byte (by omega)
  refine ⟨isCont_iff.mpr (by omega),?_⟩
  rw [toNat_low _ 6 rfl,hn]
  omega

theorem assemble_two {b c : UInt8} {v x : Nat} (hb : b.toNat = v) (hc : (c &&& 0x3F).toNat = x) :
    assemble b 0x1F [c] = Char.ofNat (v%2^5*64+x) := by
  rw [assemble,List.foldl_cons,List.foldl_nil,toNat_low b 5 rfl,hb,hc]

theorem assemble_three {b c d : UInt8} {v x y : Nat} (hb : b.toNat = v)
    (hc : (c &&& 0x3F).toNat = x) (hd : (d &&& 0x3F).toNat = y) :
    assemble b 0x0F [c,d] = Char.ofNat ((v%2^4*64+x)*64+y) := by
  rw [assemble,List.foldl_cons,List.foldl_cons,List.foldl_nil,toNat_low b 4 rfl,hb,hc,hd]

theorem assemble_four {b c d e : UInt8} {v x y z : Nat} (hb : b.toNat = v)
    (hc : (c &&& 0x3F).toNat = x) (hd : (d &&& 0x3F).toNat = y) (he : (e &&& 0x3F).toNat = z) :
    assemble b 0x07 [c,d,e] = Char.ofNat (((v%2^3*64+x)*64+y)*64+z) := by
  rw [assemble,List.foldl_cons,List.foldl_cons,List.foldl_cons,List.foldl_nil,toNat_low b 3 rfl,
    hb,hc,hd,he]

/-! The bytes of a code point, by their number. -/

theorem decode_two {v : Nat} (hlo : 0x7f < v) (hhi : v ≤ 0x7ff) (rest : List UInt8) :
    following (UInt8.ofNat (v/64%0x20+0xc0)) = some 1 ∧
      decodeOne (UInt8.ofNat (v/64%0x20+0xc0)) (UInt8.ofNat (v%0x40+0x80) :: rest) =
        (Char.ofNat v,1) := by
  obtain ⟨hcont,hlow⟩ := cont_low (n := v%0x40) (by omega)
  have hb : (UInt8.ofNat (v/64%0x20+0xc0)).toNat = v/64%0x20+0xc0 := toNat_byte (by omega)
  have hv : (v/64%0x20+0xc0)%2^5*64+v%0x40 = v := by omega
  have hchar := assemble_two hb hlow
  rw [hv] at hchar
  rw [← hchar]
  exact lead_two (by rw [hb]; omega) (by rw [hb]; omega) hcont rest

theorem decode_three {v : Nat} (hlo : 0x7ff < v) (hhi : v ≤ 0xffff)
    (hscalar : v < 0xD800 ∨ 0xDFFF < v) (rest : List UInt8) :
    following (UInt8.ofNat (v/4096%0x10+0xe0)) = some 2 ∧
      decodeOne (UInt8.ofNat (v/4096%0x10+0xe0))
        (UInt8.ofNat (v/64%0x40+0x80) :: UInt8.ofNat (v%0x40+0x80) :: rest) =
          (Char.ofNat v,2) := by
  obtain ⟨hcont,hlow⟩ := cont_low (n := v%0x40) (by omega)
  obtain ⟨-,hlow₂⟩ := cont_low (n := v/64%0x40) (by omega)
  have hn₂ : (UInt8.ofNat (v/64%0x40+0x80)).toNat = v/64%0x40+0x80 := toNat_byte (by omega)
  have hb : (UInt8.ofNat (v/4096%0x10+0xe0)).toNat = v/4096%0x10+0xe0 := toNat_byte (by omega)
  have hv : ((v/4096%0x10+0xe0)%2^4*64+v/64%0x40)*64+v%0x40 = v := by omega
  have hs : second3 (UInt8.ofNat (v/4096%0x10+0xe0)) (UInt8.ofNat (v/64%0x40+0x80)) = true := by
    rw [second3_iff,hb,hn₂]
    omega
  have hchar := assemble_three hb hlow₂ hlow
  rw [hv] at hchar
  rw [← hchar]
  exact lead_three (by rw [hb]; omega) (by rw [hb]; omega) hs hcont rest

theorem decode_four {v : Nat} (hlo : 0xffff < v) (hhi : v < 0x110000) (rest : List UInt8) :
    following (UInt8.ofNat (v/262144%0x08+0xf0)) = some 3 ∧
      decodeOne (UInt8.ofNat (v/262144%0x08+0xf0)) (UInt8.ofNat (v/4096%0x40+0x80) ::
        UInt8.ofNat (v/64%0x40+0x80) :: UInt8.ofNat (v%0x40+0x80) :: rest) =
          (Char.ofNat v,3) := by
  obtain ⟨hcont,hlow⟩ := cont_low (n := v%0x40) (by omega)
  obtain ⟨hcont₂,hlow₂⟩ := cont_low (n := v/64%0x40) (by omega)
  obtain ⟨-,hlow₃⟩ := cont_low (n := v/4096%0x40) (by omega)
  have hn₃ : (UInt8.ofNat (v/4096%0x40+0x80)).toNat = v/4096%0x40+0x80 := toNat_byte (by omega)
  have hb : (UInt8.ofNat (v/262144%0x08+0xf0)).toNat = v/262144%0x08+0xf0 :=
    toNat_byte (by omega)
  have hv : (((v/262144%0x08+0xf0)%2^3*64+v/4096%0x40)*64+v/64%0x40)*64+v%0x40 = v := by omega
  have hs : second4 (UInt8.ofNat (v/262144%0x08+0xf0)) (UInt8.ofNat (v/4096%0x40+0x80)) =
      true := by
    rw [second4_iff,hb,hn₃]
    omega
  have hchar := assemble_four hb hlow₃ hlow₂ hlow
  rw [hv] at hchar
  rw [← hchar]
  exact lead_four (by rw [hb]; omega) (by rw [hb]; omega) hs hcont₂ hcont rest

/-- The encoding of a character starts with a byte that tells how long it is, and is decoded as
that character. -/
theorem decodeOne_encode (c : Char) (rest : List UInt8) :
    ∃ b conts, String.utf8EncodeChar c = b :: conts ∧ following b = some conts.length ∧
      decodeOne b (conts ++ rest) = (c,conts.length) := by
  have hc : c.toNat < 0xD800 ∨ (0xDFFF < c.toNat ∧ c.toNat < 0x110000) := c.valid
  have hback : Char.ofNat c.toNat = c := Char.ofNat_toNat c
  have hval : c.val.toNat = c.toNat := rfl
  generalize c.toNat = v at hc hback hval
  simp only [String.utf8EncodeChar,hval]
  rw [← hback]
  by_cases h₁ : v ≤ 0x7f
  · have hb : (UInt8.ofNat v).toNat = v := toNat_byte (by omega)
    have hone := lead_one (b := UInt8.ofNat v) (by omega) rest
    rw [hb] at hone
    rw [if_pos h₁]
    exact ⟨_,[],rfl,hone⟩
  · rw [if_neg h₁]
    by_cases h₂ : v ≤ 0x7ff
    · rw [if_pos h₂]
      exact ⟨_,[_],rfl,decode_two (by omega) h₂ rest⟩
    · rw [if_neg h₂]
      by_cases h₃ : v ≤ 0xffff
      · rw [if_pos h₃]
        exact ⟨_,[_,_],rfl,decode_three (by omega) h₃ (by omega) rest⟩
      · rw [if_neg h₃]
        exact ⟨_,[_,_,_],rfl,decode_four (v := v) (by omega) (by omega) rest⟩

def encode (text : List Char) : List UInt8 := text.flatMap String.utf8EncodeChar

@[simp] theorem encode_append (text text' : List Char) :
    encode (text ++ text') = encode text ++ encode text' := List.flatMap_append

theorem decode_skip (skipped rest : List UInt8) :
    decode skipped.length (skipped ++ rest) = decode 0 rest := by
  induction skipped with
  | nil => rfl
  | cons b skipped ih => exact ih

theorem valid_skip (skipped rest : List UInt8) :
    valid skipped.length (skipped ++ rest) = valid 0 rest := by
  induction skipped with
  | nil => rfl
  | cons b skipped ih => exact ih

theorem encode_valid (text : List Char) :
    valid 0 (encode text) = true ∧ decode 0 (encode text) = text := by
  induction text with
  | nil => exact ⟨rfl,rfl⟩
  | cons c text ih =>
    obtain ⟨b,conts,hc,hfollowing,hone⟩ := decodeOne_encode c (encode text)
    have hcons : encode (c :: text) = b :: (conts ++ encode text) := by
      rw [encode,List.flatMap_cons,hc]
      rfl
    rw [hcons,valid,decode,hone,hfollowing,valid_skip,decode_skip,ih.1,ih.2]
    exact ⟨by simp,rfl⟩

theorem from_utf8_encode (text : List Char) : from_utf8 (encode text) = some text := by
  obtain ⟨hvalid,hdecode⟩ := encode_valid text
  rw [from_utf8,if_pos hvalid,hdecode]

theorem from_utf8_lossy_encode (text : List Char) :
    from_utf8_lossy (encode text) = String.ofList text :=
  congrArg String.ofList (encode_valid text).2

theorem ascii_encode {c : Char} {b : UInt8} (hb : b.toNat < 0x80)
    (h : b ∈ String.utf8EncodeChar c) : c = Char.ofNat b.toNat := by
  have hback : Char.ofNat c.toNat = c := Char.ofNat_toNat c
  have hval : c.val.toNat = c.toNat := rfl
  generalize c.toNat = v at hback hval
  -- Every byte of a longer encoding is at least 0x80.
  have hhigh {n : Nat} (hn : 0x80 ≤ n ∧ n < 256) : b ≠ UInt8.ofNat n := by
    rintro rfl
    rw [toNat_byte hn.2] at hb
    omega
  simp only [String.utf8EncodeChar,hval] at h
  split at h
  · cases List.mem_singleton.mp h
    rw [toNat_byte (by omega),hback]
  · have hcont (n : Nat) : b ≠ UInt8.ofNat (n%0x40+0x80) := hhigh (by omega)
    have htwo (n : Nat) : b ≠ UInt8.ofNat (n%0x20+0xc0) := hhigh (by omega)
    have hthree (n : Nat) : b ≠ UInt8.ofNat (n%0x10+0xe0) := hhigh (by omega)
    have hfour (n : Nat) : b ≠ UInt8.ofNat (n%0x08+0xf0) := hhigh (by omega)
    split at h
    · simp only [List.mem_cons,List.not_mem_nil,hcont,htwo,or_false] at h
    · split at h <;>
        simp only [List.mem_cons,List.not_mem_nil,hcont,hthree,hfour,or_false] at h

end Pprof.Utf8
