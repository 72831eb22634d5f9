import Mathlib.Data.Nat.Digits.Defs
set_option autoImplicit false

/-! Memory of which only some bytes can be read, the little-endian words in it, and addresses
rounded down to the words that start there. -/

namespace Pprof.ByteMemory

variable {memory : UInt64 → Option UInt8} {addr : UInt64}

/-- There are `n` bytes from the address on, and all of them can be read. -/
def Loadable (memory : UInt64 → Option UInt8) (addr : UInt64) (n : Nat) : Prop :=
  addr.toNat+n ≤ 2^64 ∧ ∀ i < n, (memory (addr+UInt64.ofNat i)).isSome

instance (n : Nat) : Decidable (Loadable memory addr n) := by unfold Loadable; infer_instance

def load (memory : UInt64 → Option UInt8) (addr : UInt64) (n : Nat) : Option (List UInt8) :=
  if Loadable memory addr n then
    some ((List.range n).map fun i => (memory (addr+UInt64.ofNat i)).getD 0)
  else none

def fromLeBytes (bs : List UInt8) : UInt64 := UInt64.ofNat (Nat.ofDigits 256 (bs.map UInt8.toNat))

def roundDown (addr : UInt64) : UInt64 := addr &&& ~~~7

theorem load_of_loadable {n : Nat} (h : Loadable memory addr n) : load memory addr n =
    some ((List.range n).map fun i => (memory (addr+UInt64.ofNat i)).getD 0) := if_pos h

theorem load_of_not_loadable {n : Nat} (h : ¬ Loadable memory addr n) :
    load memory addr n = none := if_neg h

theorem toNat_add_ofNat {i : Nat} (h : addr.toNat+i < 2^64) :
    (addr+UInt64.ofNat i).toNat = addr.toNat+i := by
  rw [UInt64.toNat_add,UInt64.toNat_ofNat']
  omega

theorem Loadable.start {n k : Nat} (h : Loadable memory addr n) (hk : k ≤ n) :
    Loadable memory addr k :=
  ⟨(Nat.add_le_add_left hk _).trans h.1,fun i hi => h.2 i (hi.trans_le hk)⟩

theorem Loadable.within {n i k : Nat} (h : Loadable memory addr n) (hk : 0 < k) (hi : i+k ≤ n) :
    Loadable memory (addr+UInt64.ofNat i) k := by
  refine ⟨?_,fun j hj => ?_⟩
  · have hle := h.1
    rw [toNat_add_ofNat (by omega)]
    omega
  · rw [UInt64.add_assoc,← UInt64.ofNat_add]
    exact h.2 (i+j) (by omega)

theorem load_start {n k : Nat} {bs : List UInt8} (h : load memory addr n = some bs)
    (hk : k ≤ n) : load memory addr k = some (bs.take k) := by
  by_cases hl : Loadable memory addr n
  · rw [load_of_loadable hl] at h
    cases h
    rw [load_of_loadable (hl.start hk),← List.map_take,List.take_range,Nat.min_eq_left hk]
  · rw [load_of_not_loadable hl] at h
    cases h

theorem bytes_eq_of_load_eq {addr' : UInt64} {n : Nat} (h : Loadable memory addr n)
    (h' : Loadable memory addr' n) (he : load memory addr n = load memory addr' n) :
    ∀ i < n, memory (addr+UInt64.ofNat i) = memory (addr'+UInt64.ofNat i) := by
  intro i hi
  rw [load_of_loadable h,load_of_loadable h',Option.some.injEq,List.map_inj_left] at he
  obtain ⟨b,hb⟩ := Option.isSome_iff_exists.mp (h.2 i hi)
  obtain ⟨b',hb'⟩ := Option.isSome_iff_exists.mp (h'.2 i hi)
  have hbyte := he i (List.mem_range.mpr hi)
  rw [hb,hb'] at hbyte
  rw [hb,hb']
  exact congrArg some hbyte

theorem load_eq_of_bytes_eq {addr' : UInt64} {n : Nat} (h : Loadable memory addr n)
    (h' : Loadable memory addr' n)
    (he : ∀ i < n, memory (addr+UInt64.ofNat i) = memory (addr'+UInt64.ofNat i)) :
    load memory addr n = load memory addr' n := by
  rw [load_of_loadable h,load_of_loadable h',Option.some.injEq,List.map_inj_left]
  intro i hi
  rw [he i (List.mem_range.mp hi)]

theorem length_of_load {n : Nat} {bs : List UInt8} (h : load memory addr n = some bs) :
    bs.length = n := by
  unfold load at h
  split at h
  · cases h
    simp
  · cases h

theorem fromLeBytes_inj {bs bs' : List UInt8} (hl : bs.length = 8) (hl' : bs'.length = 8)
    (h : fromLeBytes bs = fromLeBytes bs') : bs = bs' := by
  have hdigit : ∀ (cs : List UInt8), ∀ d ∈ cs.map UInt8.toNat, d < 256 := by
    intro cs d hd
    obtain ⟨c,-,rfl⟩ := List.mem_map.mp hd
    exact c.toNat_lt
  have hbound : ∀ cs : List UInt8, cs.length = 8 →
      Nat.ofDigits 256 (cs.map UInt8.toNat) < 2^64 := by
    intro cs hcs
    have hlt := Nat.ofDigits_lt_base_pow_length (b := 256) (by omega) (hdigit cs)
    rwa [List.length_map,hcs] at hlt
  have hnat := congrArg UInt64.toNat h
  rw [fromLeBytes,fromLeBytes,UInt64.toNat_ofNat_of_lt' (hbound bs hl),
    UInt64.toNat_ofNat_of_lt' (hbound bs' hl')] at hnat
  have hdigits := Nat.ofDigits_inj_of_len_eq (by omega) (by simp [hl,hl']) (hdigit bs)
    (hdigit bs') hnat
  exact (List.map_inj_right fun _ _ => UInt8.toNat_inj.mp).mp hdigits

theorem toNat_roundDown (addr : UInt64) : (roundDown addr).toNat = 8*(addr.toNat/8) := by
  have hmask : (~~~7 : UInt64).toNat = 2^64-(7+1) := rfl
  rw [roundDown,UInt64.toNat_and,hmask]
  apply Nat.eq_of_testBit_eq
  intro i
  rw [Nat.testBit_and,Nat.testBit_two_pow_sub_succ (by omega),show 8 = 2^3 from rfl,
    Nat.testBit_two_pow_mul,Nat.testBit_div_two_pow,show 7 = 2^3-1 from rfl,
    Nat.testBit_two_pow_sub_one]
  by_cases hlow : i < 3
  · simp [hlow]
  · rw [Nat.sub_add_cancel (by omega : 3 ≤ i)]
    by_cases hhigh : i < 64
    · simp [hhigh,hlow]
      omega
    · have hzero : addr.toNat.testBit i = false :=
        Nat.testBit_lt_two_pow (addr.toNat_lt.trans_le (Nat.pow_le_pow_right (by omega) (by omega)))
      simp [hzero]

theorem roundDown_add (addr : UInt64) :
    roundDown addr+UInt64.ofNat (addr.toNat%8) = addr := by
  have hr := toNat_roundDown addr
  have hlt := addr.toNat_lt
  apply UInt64.toNat_inj.mp
  rw [toNat_add_ofNat (by omega)]
  omega

theorem roundDown_of_aligned (h : addr.toNat%8 = 0) : roundDown addr = addr := by
  have hadd := roundDown_add addr
  rwa [h,show UInt64.ofNat 0 = 0 from rfl,UInt64.add_zero] at hadd

end Pprof.ByteMemory
