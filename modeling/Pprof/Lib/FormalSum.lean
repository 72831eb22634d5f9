import Mathlib.Data.Finsupp.SMul
import Mathlib.Algebra.BigOperators.Finsupp.Basic
import Mathlib.Algebra.BigOperators.Group.List.Basic
set_option autoImplicit false

/-! Lists of weighted keys as formal integer sums of their keys. Splitting the
weight of a key over several entries, or moving entries around, does not change
the sum, and every total that is linear in the weights can be read off it. -/

namespace Pprof.FormalSum

variable {α β : Type*}

noncomputable def formalSum (l : List (α × ℤ)) : α →₀ ℤ :=
  (l.map fun e => Finsupp.single e.1 e.2).sum

@[simp] theorem formalSum_nil : formalSum ([] : List (α × ℤ)) = 0 := rfl

@[simp] theorem formalSum_cons (e : α × ℤ) (l : List (α × ℤ)) :
    formalSum (e :: l) = Finsupp.single e.1 e.2 + formalSum l := by
  simp [formalSum]

@[simp] theorem formalSum_append (l m : List (α × ℤ)) :
    formalSum (l ++ m) = formalSum l + formalSum m := by
  simp [formalSum]

theorem formalSum_perm {l m : List (α × ℤ)} (h : l.Perm m) : formalSum l = formalSum m :=
  (h.map _).sum_eq

/-- The total weight, each key counted with the factor `w` gives it. -/
def weigh (w : α → ℤ) (l : List (α × ℤ)) : ℤ := (l.map fun e => e.2 * w e.1).sum

@[simp] theorem weigh_nil (w : α → ℤ) : weigh w [] = 0 := rfl

@[simp] theorem weigh_cons (w : α → ℤ) (e : α × ℤ) (l : List (α × ℤ)) :
    weigh w (e :: l) = e.2 * w e.1 + weigh w l := by
  simp [weigh]

@[simp] theorem weigh_append (w : α → ℤ) (l m : List (α × ℤ)) :
    weigh w (l ++ m) = weigh w l + weigh w m := by
  simp [weigh]

theorem sum_formalSum (w : α → ℤ) (l : List (α × ℤ)) :
    (formalSum l).sum (fun a n => n * w a) = weigh w l := by
  induction l with
  | nil => simp
  | cons e l ih =>
    rw [formalSum_cons,weigh_cons,Finsupp.sum_add_index',Finsupp.sum_single_index,ih]
    · simp
    · simp
    · intro a m n
      exact add_mul m n (w a)

/-- The formal sum determines every linear total. -/
theorem weigh_eq_of_formalSum_eq {l m : List (α × ℤ)} (h : formalSum l = formalSum m)
    (w : α → ℤ) : weigh w l = weigh w m := by
  rw [← sum_formalSum,← sum_formalSum,h]

theorem weigh_map (w : β → ℤ) (f : α → β) (l : List (α × ℤ)) :
    weigh w (l.map fun e => (f e.1,e.2)) = weigh (fun a => w (f a)) l := by
  induction l with
  | nil => rfl
  | cons e l ih => simp [ih]

def total (p : α → Bool) (l : List (α × ℤ)) : ℤ := weigh (fun a => if p a then 1 else 0) l

@[simp] theorem total_nil (p : α → Bool) : total p [] = 0 := rfl

theorem total_cons (p : α → Bool) (e : α × ℤ) (l : List (α × ℤ)) :
    total p (e :: l) = (if p e.1 then e.2 else 0) + total p l := by
  by_cases h : p e.1 <;> simp [total,h]

@[simp] theorem total_append (p : α → Bool) (l m : List (α × ℤ)) :
    total p (l ++ m) = total p l + total p m := weigh_append _ l m

theorem total_eq_zero {p : α → Bool} {l : List (α × ℤ)} (h : ∀ e ∈ l, p e.1 = false) :
    total p l = 0 := by
  induction l with
  | nil => rfl
  | cons e l ih =>
    have he := h e (by simp)
    have hl := ih fun x hx => h x (by simp [hx])
    simp [total_cons,he,hl]

theorem total_nonneg {p : α → Bool} {l : List (α × ℤ)} (h : ∀ e ∈ l, 0 ≤ e.2) :
    0 ≤ total p l := by
  induction l with
  | nil => simp
  | cons e l ih =>
    have he := h e (by simp)
    have hl := ih fun x hx => h x (by simp [hx])
    rw [total_cons]
    split <;> omega

theorem total_le_sum {p : α → Bool} {l : List (α × ℤ)} (h : ∀ e ∈ l, 0 ≤ e.2) :
    total p l ≤ (l.map Prod.snd).sum := by
  induction l with
  | nil => simp
  | cons e l ih =>
    have he := h e (by simp)
    have hl := ih fun x hx => h x (by simp [hx])
    rw [total_cons,List.map_cons,List.sum_cons]
    split <;> omega

theorem total_pos {p : α → Bool} {l : List (α × ℤ)} (hpos : ∀ e ∈ l, 0 < e.2)
    (hp : ∃ a ∈ l.map Prod.fst, p a = true) : 0 < total p l := by
  obtain ⟨a,ha,hpa⟩ := hp
  obtain ⟨e,he,rfl⟩ := List.mem_map.mp ha
  obtain ⟨l₁,l₂,rfl⟩ := List.append_of_mem he
  have h₁ : 0 ≤ total p l₁ := total_nonneg fun x hx => Int.le_of_lt (hpos x (by simp [hx]))
  have h₂ : 0 ≤ total p l₂ := total_nonneg fun x hx => Int.le_of_lt (hpos x (by simp [hx]))
  have he := hpos e (by simp)
  rw [total_append,total_cons,if_pos hpa]
  omega

end Pprof.FormalSum
