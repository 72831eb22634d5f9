import Mathlib.Data.List.Induction
set_option autoImplicit false

/-! Lists whose elements carry pairwise unequal keys, where equality of keys is
a boolean test `==` that need not be the equality of the type. -/

namespace Pprof.DistinctKeys

variable {ε K : Type*} [BEq K] {f : ε → K}

def Distinct (f : ε → K) (l : List ε) : Prop := l.Pairwise fun a b => (f a == f b) = false

theorem Distinct.map {l : List ε} (h : Distinct f l) (g : ε → ε) (hg : ∀ x, f (g x) = f x) :
    Distinct f (l.map g) := by
  unfold Distinct at *
  rw [List.pairwise_map]
  exact h.imp fun hab => by rw [hg,hg,hab]

theorem Distinct.concat {l : List ε} (h : Distinct f l) {x : ε}
    (hx : ∀ a ∈ l, (f a == f x) = false) : Distinct f (l ++ [x]) := by
  unfold Distinct at *
  rw [List.pairwise_append]
  refine ⟨h,by simp,fun a ha b hb => ?_⟩
  rw [List.mem_singleton.mp hb]
  exact hx a ha

/-- An equality that compares a key of its arguments is an equivalence. -/
theorem equivBEq_of_key {α : Type*} [BEq α] {κ : Type*} {key : α → κ}
    (h : ∀ {a b : α}, (a == b) = true ↔ key a = key b) : EquivBEq α where
  rfl := h.mpr rfl
  symm hab := h.mpr (h.mp hab).symm
  trans hab hbc := h.mpr ((h.mp hab).trans (h.mp hbc))

theorem equivalence_of_equivBEq (α : Type*) [BEq α] [EquivBEq α] :
    Equivalence fun a b : α => (a == b) = true :=
  ⟨fun _ => BEq.rfl,PartialEquivBEq.symm,PartialEquivBEq.trans⟩

variable [EquivBEq K]

theorem beq_false_of_beq {a b k : K} (hb : (b == k) = true) (h : (a == b) = false) :
    (a == k) = false := by
  rw [← Bool.not_eq_true]
  intro hk
  rw [PartialEquivBEq.trans hk (PartialEquivBEq.symm hb)] at h
  cases h

theorem Distinct.set {l : List ε} (h : Distinct f l) {x : ε} (i : Nat)
    (hx : ∀ a ∈ l, (f a == f x) = false) : Distinct f (l.set i x) := by
  induction l generalizing i with
  | nil => exact h
  | cons a l ih =>
    obtain ⟨ha,hl⟩ := List.pairwise_cons.mp h
    have hxl : ∀ b ∈ l, (f b == f x) = false := fun b hb => hx b (by simp [hb])
    cases i with
    | zero =>
      refine List.pairwise_cons.mpr ⟨fun b hb => ?_,hl⟩
      rw [BEq.comm]
      exact hxl b hb
    | succ i =>
      refine List.pairwise_cons.mpr ⟨fun b hb => ?_,ih hl i hxl⟩
      rcases List.mem_or_eq_of_mem_set hb with hb | rfl
      · exact ha b hb
      · exact hx a (by simp)

theorem Distinct.split {l : List ε} (hd : Distinct f l) {e : ε} {k : K} (he : e ∈ l)
    (hk : (f e == k) = true) :
    ∃ l₁ l₂, l = l₁ ++ e :: l₂ ∧ (∀ x ∈ l₁, (f x == k) = false) ∧
      ∀ x ∈ l₂, (f x == k) = false := by
  obtain ⟨l₁,l₂,rfl⟩ := List.append_of_mem he
  unfold Distinct at hd
  rw [List.pairwise_append,List.pairwise_cons] at hd
  obtain ⟨-,⟨h₂,-⟩,h₁⟩ := hd
  refine ⟨l₁,l₂,rfl,fun x hx => beq_false_of_beq hk (h₁ x hx e (by simp)),fun x hx => ?_⟩
  refine beq_false_of_beq hk ?_
  rw [BEq.comm]
  exact h₂ x hx

omit [EquivBEq K] in
theorem map_under {l₁ l₂ : List ε} {e : ε} {k : K} (hk : (f e == k) = true)
    (h₁ : ∀ x ∈ l₁, (f x == k) = false) (h₂ : ∀ x ∈ l₂, (f x == k) = false) (g : ε → ε) :
    ((l₁ ++ e :: l₂).map fun x => if f x == k then g x else x) = l₁ ++ g e :: l₂ := by
  have hfix : ∀ m : List ε, (∀ x ∈ m, (f x == k) = false) →
      (m.map fun x => if f x == k then g x else x) = m := by
    intro m hm
    refine (List.map_congr_left fun x hx => ?_).trans (List.map_id m)
    simp [hm x hx]
  rw [List.map_append,List.map_cons,hfix l₁ h₁,hfix l₂ h₂]
  simp [hk]

theorem Distinct.modify {l : List ε} (hd : Distinct f l) {e : ε} {k : K} (he : e ∈ l)
    (hk : (f e == k) = true) :
    ∃ l₁ l₂, l = l₁ ++ e :: l₂ ∧ ∀ g : ε → ε,
      (l.map fun x => if f x == k then g x else x) = l₁ ++ g e :: l₂ := by
  obtain ⟨l₁,l₂,rfl,h₁,h₂⟩ := hd.split he hk
  exact ⟨l₁,l₂,rfl,map_under hk h₁ h₂⟩

/-- The keys of a list, each as it came first. -/
def firsts (keys : List K) : List K :=
  keys.foldl (fun seen k => if seen.any (· == k) then seen else seen ++ [k]) []

omit [EquivBEq K] in
theorem firsts_snoc (keys : List K) (k : K) :
    firsts (keys ++ [k]) = if (firsts keys).any (· == k) then firsts keys
      else firsts keys ++ [k] := by simp [firsts]

theorem any_firsts (keys : List K) (k : K) : (firsts keys).any (· == k) = keys.any (· == k) := by
  induction keys using List.reverseRecOn with
  | nil => rfl
  | append_singleton keys x ih =>
    rw [firsts_snoc,List.any_append,← ih]
    by_cases hx : (firsts keys).any (· == x)
    · rw [if_pos hx]
      by_cases hk : x == k
      · obtain ⟨y,hy,hyx⟩ := List.any_eq_true.mp hx
        have hany : (firsts keys).any (· == k) = true :=
          List.any_eq_true.mpr ⟨y,hy,PartialEquivBEq.trans hyx hk⟩
        rw [hany]
        rfl
      · simp [hk]
    · rw [if_neg hx,List.any_append]

end Pprof.DistinctKeys
