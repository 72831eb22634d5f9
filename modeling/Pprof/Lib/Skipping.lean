import Mathlib.Data.List.Basic
set_option autoImplicit false

/-! A loop over an iterator that an item which is marked advances once more: the item after it
is never looked at. -/

namespace Pprof.Skipping

variable {α : Type*} (marked : α → Bool)

/-- The items that the loop meets, less the marked ones. -/
def met : List α → List α
  | [] => []
  | x :: xs =>
    if marked x then
      match xs with
      | [] => []
      | _ :: xs => met xs
    else x :: met xs

def positions : Nat → List α → List Nat
  | _, [] => []
  | i, x :: xs =>
    if marked x then
      match xs with
      | [] => []
      | _ :: xs => positions (i+2) xs
    else i :: positions (i+1) xs

/-- The positions that the loop gets to from position `i`. -/
inductive Reached (xs : List α) (i : Nat) : Nat → Prop where
  | start : Reached xs i i
  | next {j : Nat} {x : α} :
      Reached xs i j → xs[j]? = some x → marked x = false → Reached xs i (j+1)
  | skip {j : Nat} {x : α} :
      Reached xs i j → xs[j]? = some x → marked x = true → Reached xs i (j+2)

variable {marked}

theorem met_pass {x : α} (h : ¬ marked x = true) (xs : List α) :
    met marked (x :: xs) = x :: met marked xs := by
  cases xs <;> simp [met,h]

theorem met_unmarked (xs : List α) : ∀ x ∈ met marked xs, marked x = false := by
  fun_induction met marked xs with
  | case1 => nofun
  | case2 x hx => nofun
  | case3 x hx y xs ih => exact ih
  | case4 x xs hx ih =>
    intro y hy
    rcases List.mem_cons.mp hy with rfl | hy
    · simpa using hx
    · exact ih y hy

theorem met_of_unmarked {xs : List α} (h : ∀ x ∈ xs, marked x = false) : met marked xs = xs := by
  induction xs with
  | nil => rfl
  | cons x xs ih =>
    have hx : ¬ marked x = true := by simp [h x List.mem_cons_self]
    rw [met_pass hx,ih fun y hy => h y (List.mem_cons_of_mem _ hy)]

theorem positions_ge (i : Nat) (xs : List α) : ∀ j ∈ positions marked i xs, i ≤ j := by
  fun_induction positions marked i xs with
  | case1 => nofun
  | case2 => nofun
  | case3 i x hx y xs ih =>
    intro j hj
    have hle := ih j hj
    omega
  | case4 i x xs hx ih =>
    intro j hj
    rcases List.mem_cons.mp hj with rfl | hj
    · exact Nat.le_refl _
    · have hle := ih j hj
      omega

theorem positions_ascend (i : Nat) (xs : List α) : (positions marked i xs).Pairwise (· < ·) := by
  fun_induction positions marked i xs with
  | case1 => exact .nil
  | case2 => exact .nil
  | case3 i x hx y xs ih => exact ih
  | case4 i x xs hx ih => exact .cons (fun j hj => positions_ge (i+1) xs j hj) ih

theorem drop_cons {xs ys : List α} {i : Nat} {x : α} (h : ys.drop i = x :: xs) :
    ys[i]? = some x ∧ ys.drop (i+1) = xs := by
  constructor
  · rw [← Nat.add_zero i,← List.getElem?_drop,h]
    rfl
  · rw [← List.drop_drop,h]
    rfl

theorem met_positions (i : Nat) (xs ys : List α) (h : ys.drop i = xs) :
    met marked xs = (positions marked i xs).filterMap (ys[·]?) := by
  fun_induction positions marked i xs with
  | case1 => rfl
  | case2 i x hx => simp [met,hx]
  | case3 i x hx y xs ih =>
    rw [met,if_pos hx,ih (drop_cons (drop_cons h).2).2]
  | case4 i x xs hx ih =>
    obtain ⟨hget,hdrop⟩ := drop_cons h
    rw [met_pass hx,ih hdrop,List.filterMap_cons,hget]

theorem Reached.ge {xs : List α} {i j : Nat} (h : Reached marked xs i j) : i ≤ j := by
  induction h with
  | start => exact Nat.le_refl _
  | next _ _ _ ih => exact Nat.le_succ_of_le ih
  | skip _ _ _ ih => exact Nat.le_add_right_of_le ih

theorem Reached.head {xs : List α} {i j : Nat} (h : Reached marked xs i j) :
    i = j ∨ ∃ x, xs[i]? = some x ∧
      ((marked x = false ∧ Reached marked xs (i+1) j) ∨
        (marked x = true ∧ Reached marked xs (i+2) j)) := by
  induction h with
  | start => exact .inl rfl
  | @next j x _ hx hm ih =>
    right
    rcases ih with rfl | ⟨y,hy,⟨hmy,hr⟩ | ⟨hmy,hr⟩⟩
    · exact ⟨x,hx,.inl ⟨hm,.start⟩⟩
    · exact ⟨y,hy,.inl ⟨hmy,hr.next hx hm⟩⟩
    · exact ⟨y,hy,.inr ⟨hmy,hr.next hx hm⟩⟩
  | @skip j x _ hx hm ih =>
    right
    rcases ih with rfl | ⟨y,hy,⟨hmy,hr⟩ | ⟨hmy,hr⟩⟩
    · exact ⟨x,hx,.inr ⟨hm,.start⟩⟩
    · exact ⟨y,hy,.inl ⟨hmy,hr.skip hx hm⟩⟩
    · exact ⟨y,hy,.inr ⟨hmy,hr.skip hx hm⟩⟩

theorem Reached.trans {xs : List α} {i j k : Nat} (h : Reached marked xs i j)
    (h' : Reached marked xs j k) : Reached marked xs i k := by
  induction h' with
  | start => exact h
  | next _ hx hm ih => exact ih.next hx hm
  | skip _ hx hm ih => exact ih.skip hx hm

theorem reached_pass {xs : List α} {i j : Nat} {x : α} (hx : xs[i]? = some x)
    (hm : marked x = false) : Reached marked xs i j ↔ i = j ∨ Reached marked xs (i+1) j := by
  constructor
  · intro h
    rcases h.head with heq | ⟨y,hy,⟨-,hr⟩ | ⟨hmy,-⟩⟩
    · exact .inl heq
    · exact .inr hr
    · rw [hx] at hy
      cases hy
      rw [hm] at hmy
      cases hmy
  · rintro (rfl | h)
    · exact .start
    · exact (Reached.start.next hx hm).trans h

theorem reached_skip {xs : List α} {i j : Nat} {x : α} (hx : xs[i]? = some x)
    (hm : marked x = true) : Reached marked xs i j ↔ i = j ∨ Reached marked xs (i+2) j := by
  constructor
  · intro h
    rcases h.head with heq | ⟨y,hy,⟨hmy,-⟩ | ⟨-,hr⟩⟩
    · exact .inl heq
    · rw [hx] at hy
      cases hy
      rw [hm] at hmy
      cases hmy
    · exact .inr hr
  · rintro (rfl | h)
    · exact .start
    · exact (Reached.start.skip hx hm).trans h

theorem Reached.onward {xs : List α} {i j k : Nat} (h : Reached marked xs i j)
    (h' : Reached marked xs i k) (hle : j ≤ k) : Reached marked xs j k := by
  induction h with
  | start => exact h'
  | next _ hx hm ih =>
    rcases (reached_pass hx hm).mp (ih (by omega)) with rfl | hr
    · omega
    · exact hr
  | skip _ hx hm ih =>
    rcases (reached_skip hx hm).mp (ih (by omega)) with rfl | hr
    · omega
    · exact hr

theorem Reached.skips {xs : List α} {i j : Nat} {x : α} (h : Reached marked xs i j)
    (hx : xs[j]? = some x) (hm : marked x = true) : ¬ Reached marked xs i (j+1) := by
  intro h'
  rcases (reached_skip hx hm).mp (h.onward h' (Nat.le_succ j)) with heq | hr
  · omega
  · have hge := hr.ge
    omega

theorem mem_positions (i : Nat) (xs ys : List α) (h : ys.drop i = xs) (j : Nat) :
    j ∈ positions marked i xs ↔
      Reached marked ys i j ∧ ∃ x, ys[j]? = some x ∧ marked x = false := by
  have hmarked : ∀ {i : Nat} {x : α}, ys[i]? = some x → marked x = true →
      ((Reached marked ys i j ∧ ∃ x, ys[j]? = some x ∧ marked x = false) ↔
        Reached marked ys (i+2) j ∧ ∃ x, ys[j]? = some x ∧ marked x = false) := by
    intro i x hx hm
    rw [reached_skip hx hm]
    refine and_congr_left fun ⟨y,hy,hmy⟩ => or_iff_right ?_
    rintro rfl
    rw [hx] at hy
    cases hy
    rw [hm] at hmy
    cases hmy
  have hend : ∀ {i : Nat}, ys.drop i = [] →
      ¬ (Reached marked ys i j ∧ ∃ x, ys[j]? = some x ∧ marked x = false) := by
    rintro i h ⟨hr,x,hx,-⟩
    have hlt := (List.getElem?_eq_some_iff.mp hx).1
    have hle := List.drop_eq_nil_iff.mp h
    have hge := hr.ge
    omega
  fun_induction positions marked i xs with
  | case1 i => exact iff_of_false (List.not_mem_nil) (hend h)
  | case2 i x hx =>
    obtain ⟨hget,hdrop⟩ := drop_cons h
    have hnil : ys.drop (i+2) = [] := by rw [← List.drop_drop,h]; rfl
    rw [hmarked hget hx]
    exact iff_of_false (List.not_mem_nil) (hend hnil)
  | case3 i x hx y xs ih =>
    obtain ⟨hget,hdrop⟩ := drop_cons h
    rw [hmarked hget hx]
    exact ih (drop_cons hdrop).2
  | case4 i x xs hx ih =>
    obtain ⟨hget,hdrop⟩ := drop_cons h
    have hm : marked x = false := by simpa using hx
    refine (List.mem_cons.trans (or_congr_right (ih hdrop))).trans ?_
    rw [reached_pass hget hm,or_and_right]
    refine or_congr_left ⟨?_,fun hj => hj.1.symm⟩
    rintro rfl
    exact ⟨rfl,x,hget,hm⟩

end Pprof.Skipping
