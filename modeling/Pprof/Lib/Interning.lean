import Mathlib.Data.List.Basic
set_option autoImplicit false

/-! Numbering by a key: an item whose key is new is taken up at the end of a list, and every
item goes by the position at which its key came up first. -/

namespace Pprof.Interning

variable {α κ : Type*} [DecidableEq κ] {f : α → κ}

/-- The position under which a key is known. -/
def position (f : α → κ) (items : List α) (k : κ) : Option Nat :=
  items.findIdx? fun x => decide (f x = k)

def intern (f : α → κ) (items : List α) (x : α) : List α :=
  if (position f items (f x)).isSome then items else items ++ [x]

def internAll (f : α → κ) (items xs : List α) : List α := xs.foldl (intern f) items

theorem position_get {items : List α} {k : κ} {i : Nat} (h : position f items k = some i) :
    ∃ x, items[i]? = some x ∧ f x = k := by
  obtain ⟨hi,hk,-⟩ := List.findIdx?_eq_some_iff_getElem.mp h
  exact ⟨items[i],List.getElem?_eq_getElem hi,by simpa using hk⟩

theorem position_none {items : List α} {k : κ} :
    position f items k = none ↔ ∀ x ∈ items, f x ≠ k := by
  simp [position,List.findIdx?_eq_none_iff]

theorem position_append {items : List α} {k : κ} {i : Nat} (h : position f items k = some i)
    (more : List α) : position f (items ++ more) k = some i := by
  rw [position] at h ⊢
  rw [List.findIdx?_append,h]
  rfl

theorem position_snoc {items : List α} {x : α} (h : position f items (f x) = none) (k : κ) :
    position f (items ++ [x]) k = if f x = k then some items.length else position f items k := by
  by_cases hk : f x = k
  · subst hk
    rw [position] at h ⊢
    rw [List.findIdx?_append,h]
    simp
  · rw [position,List.findIdx?_append]
    simp [hk,position]

theorem intern_known {items : List α} {x : α} {i : Nat} (h : position f items (f x) = some i) :
    intern f items x = items := by simp [intern,h]

theorem intern_new {items : List α} {x : α} (h : position f items (f x) = none) :
    intern f items x = items ++ [x] := by simp [intern,h]

theorem intern_extends (items : List α) (x : α) : items <+: intern f items x := by
  unfold intern
  split
  · exact List.prefix_rfl
  · exact List.prefix_append items [x]

theorem internAll_extends (items xs : List α) : items <+: internAll f items xs := by
  induction xs generalizing items with
  | nil => exact List.prefix_rfl
  | cons x xs ih => exact (intern_extends items x).trans (ih (intern f items x))

theorem internAll_append (items xs ys : List α) :
    internAll f items (xs ++ ys) = internAll f (internAll f items xs) ys := List.foldl_append ..

theorem intern_nodup {items : List α} (h : (items.map f).Nodup) (x : α) :
    ((intern f items x).map f).Nodup := by
  cases hp : position f items (f x) with
  | some i => rwa [intern_known hp]
  | none =>
    rw [intern_new hp,List.map_append,List.nodup_append]
    refine ⟨h,by simp,fun k hk y hy => ?_⟩
    obtain ⟨z,hz,rfl⟩ := List.mem_map.mp hk
    rw [List.mem_singleton.mp hy]
    exact position_none.mp hp z hz

theorem internAll_nodup {items : List α} (h : (items.map f).Nodup) (xs : List α) :
    ((internAll f items xs).map f).Nodup := by
  induction xs generalizing items with
  | nil => exact h
  | cons x xs ih => exact ih (intern_nodup h x)

theorem intern_mem {items : List α} {x y : α} (h : y ∈ intern f items x) : y ∈ items ∨ y = x := by
  unfold intern at h
  split at h
  · exact .inl h
  · simpa using h

theorem internAll_mem {items xs : List α} {y : α} (h : y ∈ internAll f items xs) :
    y ∈ items ∨ y ∈ xs := by
  induction xs generalizing items with
  | nil => exact .inl h
  | cons x xs ih =>
    rcases ih h with h | h
    · rcases intern_mem h with h | rfl
      · exact .inl h
      · exact .inr (by simp)
    · exact .inr (by simp [h])

theorem internAll_position {items xs : List α} {x : α} (h : x ∈ xs) :
    ∃ i, position f (internAll f items xs) (f x) = some i := by
  obtain ⟨l,m,rfl⟩ := List.append_of_mem h
  rw [internAll_append]
  have hx : ∃ i, position f (intern f (internAll f items l) x) (f x) = some i := by
    cases hp : position f (internAll f items l) (f x) with
    | some i => exact ⟨i,by rw [intern_known hp,hp]⟩
    | none => exact ⟨_,by rw [intern_new hp,position_snoc hp,if_pos rfl]⟩
  obtain ⟨i,hi⟩ := hx
  obtain ⟨more,hmore⟩ := internAll_extends (f := f) (intern f (internAll f items l) x) m
  refine ⟨i,?_⟩
  change position f (internAll f (intern f (internAll f items l) x) m) (f x) = some i
  rw [← hmore]
  exact position_append hi more

end Pprof.Interning
