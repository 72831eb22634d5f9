import Mathlib.Data.List.Basic
set_option autoImplicit false

/-! Fields put one after the other with a separator between them, and reading them back. A
field comes back as it was just if the separator is not in it. -/

namespace Pprof.Separated

variable {α : Type*} [DecidableEq α]

/-- Before and after the last occurrence of `a`. -/
def splitLast (a : α) : List α → Option (List α × List α)
  | [] => none
  | x :: xs =>
    match splitLast a xs with
    | some (l,r) => some (x :: l,r)
    | none => if x = a then some ([],xs) else none

theorem splitLast_none {a : α} {xs : List α} (h : a ∉ xs) : splitLast a xs = none := by
  induction xs with
  | nil => rfl
  | cons x xs ih =>
    simp only [List.mem_cons,not_or] at h
    simp [splitLast,ih h.2,Ne.symm h.1]

theorem splitLast_append {a : α} (l : List α) {r : List α} (h : a ∉ r) :
    splitLast a (l ++ a :: r) = some (l,r) := by
  induction l with
  | nil => simp [splitLast,splitLast_none h]
  | cons x l ih => simp [splitLast,ih]

theorem not_mem_splitOn (a : α) (xs : List α) : ∀ l ∈ xs.splitOn a, a ∉ l := by
  induction xs with
  | nil => simp [List.splitOn_nil]
  | cons x xs ih =>
    rw [List.splitOn_cons_eq_if_modifyHead]
    by_cases hx : x = a
    · simpa [hx] using ih
    · rw [if_neg (by simpa using hx)]
      cases hs : xs.splitOn a with
      | nil => simp
      | cons l ls =>
        rw [hs] at ih
        simp only [List.mem_cons,forall_eq_or_imp] at ih
        simp only [List.modifyHead_cons,List.mem_cons,forall_eq_or_imp,not_or]
        exact ⟨⟨Ne.symm hx,ih.1⟩,ih.2⟩

theorem splitOn_intercalate_iff {a : α} {ls : List (List α)} (hne : ls ≠ []) :
    ([a].intercalate ls).splitOn a = ls ↔ ∀ l ∈ ls, a ∉ l := by
  constructor
  · intro h
    rw [← h]
    exact not_mem_splitOn a _
  · intro h
    exact List.splitOn_intercalate a h hne

omit [DecidableEq α] in
theorem dropLast_flatMap (a : α) {ls : List (List α)} (hne : ls ≠ []) :
    (ls.flatMap fun l => l ++ [a]).dropLast = [a].intercalate ls := by
  induction ls with
  | nil => exact absurd rfl hne
  | cons l ls ih =>
    cases ls with
    | nil => simp [List.intercalate]
    | cons m ls =>
      have hm : ((m :: ls).flatMap fun l => l ++ [a]) ≠ [] := by simp
      rw [List.flatMap_cons,List.dropLast_append_of_ne_nil hm,ih (by simp)]
      simp [List.intercalate]

end Pprof.Separated
