import Pprof.Lib.Runs
set_option autoImplicit false

/-! Runs seen through a projection of the state. Some labels are those of the other step
function, the rest leave the projected state alone. -/

namespace Pprof.Runs

variable {S S' L L' : Type*} {step : S → L → Option S} {step' : S' → L' → Option S'}

def Projects (step : S → L → Option S) (step' : S' → L' → Option S') (f : S → S')
    (g : L → Option L') : Prop :=
  ∀ s l s', step s l = some s' →
    match g l with
    | some l' => step' (f s) l' = some (f s')
    | none => f s' = f s

/-- A run whose steps all meet a condition, by the labels alone: what each step stands for does
not depend on the state. -/
theorem run_filterMap {I : S → Prop} {ok : S → L → Prop} {f : S → S'} {g : L → Option L'}
    (h : ∀ s l s', I s → ok s l → step s l = some s' →
      I s' ∧ run step' (f s) (g l).toList = some (f s'))
    {s s' : S} {ls : List L} (hi : I s) (ha : Along step ok s ls) (hr : run step s ls = some s') :
    I s' ∧ run step' (f s) (ls.filterMap g) = some (f s') := by
  induction ls generalizing s with
  | nil =>
    cases hr
    exact ⟨hi,rfl⟩
  | cons l ls ih =>
    obtain ⟨t,ht,hrest⟩ := run_cons_eq_some hr
    obtain ⟨hit,hone⟩ := h s l t hi ha.1 ht
    obtain ⟨his',hrun⟩ := ih hit (ha.2 t ht) hrest
    refine ⟨his',?_⟩
    have hcons : (l :: ls).filterMap g = (g l).toList ++ ls.filterMap g := by
      cases hg : g l with
      | some l' => rw [List.filterMap_cons_some hg]; rfl
      | none => rw [List.filterMap_cons_none hg]; rfl
    rw [hcons,run_append_some hone,hrun]

theorem Projects.run {f : S → S'} {g : L → Option L'} (h : Projects step step' f g) {s s' : S}
    {ls : List L} (hr : run step s ls = some s') :
    run step' (f s) (ls.filterMap g) = some (f s') := by
  have hone : ∀ s l s', True → True → step s l = some s' →
      True ∧ Runs.run step' (f s) (g l).toList = some (f s') := by
    intro s l s' _ _ hs
    have hp := h s l s' hs
    refine ⟨trivial,?_⟩
    cases hg : g l with
    | some l' =>
      rw [hg] at hp
      exact run_cons_some hp []
    | none =>
      rw [hg] at hp
      exact congrArg some hp.symm
  have hall : Along step (fun _ _ => True) s ls := Along.of_forall (fun _ _ => trivial) s ls
  exact (run_filterMap hone trivial hall hr).2

theorem run_added {f : S → S'} {step' : S' → L → Option S'}
    (h : ∀ s l, (step s l).map f = step' (f s) l) (s : S) (ls : List L) :
    (run step s ls).map f = run step' (f s) ls := by
  induction ls generalizing s with
  | nil => rfl
  | cons l ls ih =>
    rw [run_cons,run_cons,← h s l]
    cases step s l with
    | none => rfl
    | some t => exact ih t

def trail (step : S → L → Option S) (g : S → L → List L') : S → List L → List L'
  | _, [] => []
  | s, l :: ls => g s l ++ (step s l).elim [] fun s' => trail step g s' ls

/-- Runs of the one level are runs of the other, with what their steps stand for there. The
invariant is of the lower level alone, or ties the two. -/
theorem run_trail {I : S → Prop} {f : S → S'} {g : S → L → List L'}
    (h : ∀ s l s', I s → step s l = some s' → I s' ∧ run step' (f s) (g s l) = some (f s'))
    {s s' : S} {ls : List L} (hi : I s) (hr : run step s ls = some s') :
    I s' ∧ run step' (f s) (trail step g s ls) = some (f s') := by
  induction ls generalizing s with
  | nil =>
    cases hr
    exact ⟨hi,rfl⟩
  | cons l ls ih =>
    obtain ⟨t,ht,hrest⟩ := run_cons_eq_some hr
    obtain ⟨hit,hone⟩ := h s l t hi ht
    obtain ⟨his',hrun⟩ := ih hit hrest
    refine ⟨his',?_⟩
    rw [trail,ht,Option.elim_some,run_append_some hone,hrun]

theorem mem_trail {g : S → L → List L'} {s s' : S} {ls : List L} (hr : run step s ls = some s')
    {x : L'} (h : x ∈ trail step g s ls) :
    ∃ t l t', Reachable step s t ∧ step t l = some t' ∧ x ∈ g t l := by
  induction ls generalizing s with
  | nil => cases h
  | cons l ls ih =>
    obtain ⟨t,ht,hrest⟩ := run_cons_eq_some hr
    rw [trail,ht,Option.elim_some,List.mem_append] at h
    rcases h with hone | hlater
    · exact ⟨s,l,t,⟨[],rfl⟩,ht,hone⟩
    · obtain ⟨u,k,u',⟨ms,hms⟩,hu,hx⟩ := ih hrest hlater
      exact ⟨u,k,u',⟨l :: ms,(run_cons_some ht ms).trans hms⟩,hu,hx⟩

end Pprof.Runs
