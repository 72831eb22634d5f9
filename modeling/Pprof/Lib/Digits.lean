import Mathlib.Algebra.Ring.Nat
import Mathlib.Data.List.Basic
set_option autoImplicit false

/-! Numbers written in digits: the digits at given places, the most significant first, and
reading digits back with a bound on what is read. -/

namespace Pprof.Digits

/-- The digits of `n` in base `b` at the lowest `k` places. -/
def places (b n : Nat) : Nat → List Nat
  | 0 => []
  | k+1 => n/b^k%b :: places b n k

@[simp] theorem length_places (b n k : Nat) : (places b n k).length = k := by
  induction k with
  | zero => rfl
  | succ k ih => simp [places,ih]

theorem places_lt {b : Nat} (hb : 0 < b) (n k : Nat) : ∀ d ∈ places b n k, d < b := by
  induction k with
  | zero => nofun
  | succ k ih =>
    intro d hd
    rcases List.mem_cons.mp hd with rfl | hd
    · exact Nat.mod_lt _ hb
    · exact ih d hd

theorem places_snoc (b n k : Nat) : places b n (k+1) = places b (n/b) k ++ [n%b] := by
  induction k with
  | zero => simp [places]
  | succ k ih =>
    have hdiv : n/b^(k+1) = n/b/b^k := by rw [pow_succ',Nat.div_div_eq_div_mul]
    rw [places,ih,hdiv]
    rfl

theorem toDigits_places {b : Nat} (hb : 1 < b) {n k : Nat} (hlow : b^k ≤ n)
    (hhigh : n < b^(k+1)) : Nat.toDigits b n = (places b n (k+1)).map Nat.digitChar := by
  induction k generalizing n with
  | zero =>
    rw [Nat.toDigits_of_lt_base (by simpa using hhigh)]
    simp [places,Nat.mod_eq_of_lt (by simpa using hhigh : n < b)]
  | succ k ih =>
    have hbase : b ≤ n := Nat.le_trans (Nat.le_self_pow (Nat.succ_ne_zero k) b) hlow
    have hlow' : b^k ≤ n/b := (Nat.le_div_iff_mul_le (by omega)).mpr (by rwa [← pow_succ])
    have hhigh' : n/b < b^(k+1) := Nat.div_lt_of_lt_mul (by rwa [← pow_succ'])
    rw [Nat.toDigits_of_base_le hb hbase,ih hlow' hhigh',places_snoc b n,List.map_append]
    rfl

theorem mem_toDigits {b : Nat} (hb : 1 < b) {n : Nat} {c : Char} (h : c ∈ Nat.toDigits b n) :
    ∃ d, d < b ∧ c = d.digitChar := by
  induction n using Nat.strong_induction_on with
  | _ n ih =>
    rw [Nat.toDigits_eq_if hb] at h
    split at h
    · rename_i hlt
      exact ⟨n,hlt,List.mem_singleton.mp h⟩
    · rcases List.mem_append.mp h with h | h
      · exact ih _ (Nat.div_lt_self (by omega) hb) h
      · exact ⟨_,Nat.mod_lt n (by omega),List.mem_singleton.mp h⟩

/-- The number read so far and one more digit, below the bound `M`. -/
def readDigit (value : Char → Option Nat) (b M n : Nat) (c : Char) : Option Nat :=
  (value c).bind fun d => if n*b+d < M then some (n*b+d) else none

theorem read_toDigits {value : Char → Option Nat} {b : Nat} (hb : 1 < b)
    (hvalue : ∀ d, d < b → value d.digitChar = some d) {n M : Nat} (hn : n < M) :
    (Nat.toDigits b n).foldlM (readDigit value b M) 0 = some n := by
  induction n using Nat.strong_induction_on with
  | _ n ih =>
    rw [Nat.toDigits_eq_if hb]
    by_cases hlt : n < b
    · simp [hlt,readDigit,hvalue n hlt,hn]
    · have hdiv : n/b < n := Nat.div_lt_self (by omega) hb
      have hmod : n/b*b+n%b = n := Nat.div_add_mod' n b
      rw [if_neg hlt,List.foldlM_append,ih _ hdiv (by omega)]
      simp [readDigit,hvalue _ (Nat.mod_lt n (by omega)),hmod,hn]

end Pprof.Digits
