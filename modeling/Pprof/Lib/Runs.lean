import Mathlib.Data.List.Basic
set_option autoImplicit false

/-! Runs of a partial step function. A step that is not enabled gives `none`,
and so does every run that tries to take it. -/

namespace Pprof.Runs

variable {S L : Type*} {step : S → L → Option S} {ok : S → L → Prop}

def run (step : S → L → Option S) : S → List L → Option S
  | s, [] => some s
  | s, l :: ls => (step s l).bind fun s' => run step s' ls

/-- Every step that the run takes meets `ok` in the state it is taken from. -/
def Along (step : S → L → Option S) (ok : S → L → Prop) : S → List L → Prop
  | _, [] => True
  | s, l :: ls => ok s l ∧ ∀ s', step s l = some s' → Along step ok s' ls

instance Along.decidable [∀ s l, Decidable (ok s l)] :
    (s : S) → (ls : List L) → Decidable (Along step ok s ls)
  | _, [] => isTrue trivial
  | s, l :: ls =>
    match h : step s l with
    | none => decidable_of_iff (ok s l) (by simp [Along,h])
    | some s' =>
      have := Along.decidable s' ls
      decidable_of_iff (ok s l ∧ Along step ok s' ls) (by simp [Along,h])

def Reachable (step : S → L → Option S) (s₀ s : S) : Prop :=
  ∃ ls, run step s₀ ls = some s

@[simp] theorem run_nil (s : S) : run step s [] = some s := rfl

theorem run_cons (s : S) (l : L) (ls : List L) :
    run step s (l :: ls) = (step s l).bind fun s' => run step s' ls := rfl

theorem run_cons_some {s s' : S} {l : L} (h : step s l = some s') (ls : List L) :
    run step s (l :: ls) = run step s' ls := by
  rw [run_cons,h]
  rfl

theorem run_cons_eq_some {s s'' : S} {l : L} {ls : List L}
    (h : run step s (l :: ls) = some s'') :
    ∃ s', step s l = some s' ∧ run step s' ls = some s'' := by
  cases hs : step s l with
  | none => simp [run_cons,hs] at h
  | some s' => exact ⟨s',rfl,by simpa [run_cons,hs] using h⟩

theorem run_append (s : S) (ls ms : List L) :
    run step s (ls ++ ms) = (run step s ls).bind fun s' => run step s' ms := by
  induction ls generalizing s with
  | nil => rfl
  | cons l ls ih =>
    rw [List.cons_append,run_cons,run_cons]
    cases step s l with
    | none => rfl
    | some s' => exact ih s'

theorem run_append_some {s s' : S} {ls : List L} (h : run step s ls = some s')
    (ms : List L) : run step s (ls ++ ms) = run step s' ms := by
  rw [run_append,h]
  rfl

theorem run_snoc {s s' : S} {ls : List L} (h : run step s ls = some s') (l : L) :
    run step s (ls ++ [l]) = step s' l := by
  rw [run_append_some h,run_cons]
  cases step s' l <;> rfl

theorem run_snoc_eq_some {s s'' : S} {l : L} {ls : List L}
    (h : run step s (ls ++ [l]) = some s'') :
    ∃ s', run step s ls = some s' ∧ step s' l = some s'' := by
  cases hs : run step s ls with
  | none => simp [run_append,hs] at h
  | some s' => exact ⟨s',rfl,by rw [← run_snoc hs,h]⟩

theorem Along.of_forall (h : ∀ s l, ok s l) (s : S) (ls : List L) :
    Along step ok s ls := by
  induction ls generalizing s with
  | nil => trivial
  | cons l ls ih => exact ⟨h s l,fun s' _ => ih s'⟩

theorem Along.cons {s s' : S} {l : L} {ls : List L} (h : ok s l) (hs : step s l = some s')
    (ha : Along step ok s' ls) : Along step ok s (l :: ls) := by
  refine ⟨h,fun t ht => ?_⟩
  rw [hs] at ht
  cases ht
  exact ha

theorem Along.append {s s' : S} {ls ms : List L} (h : Along step ok s (ls ++ ms))
    (hr : run step s ls = some s') : Along step ok s ls ∧ Along step ok s' ms := by
  induction ls generalizing s with
  | nil =>
    cases hr
    exact ⟨trivial,h⟩
  | cons l ls ih =>
    obtain ⟨t,ht,hrest⟩ := run_cons_eq_some hr
    refine ⟨⟨h.1,fun t' ht' => ?_⟩,(ih (h.2 t ht) hrest).2⟩
    rw [ht] at ht'
    cases ht'
    exact (ih (h.2 t ht) hrest).1

theorem Along.snoc {s s' : S} {l : L} {ls : List L} (h : Along step ok s ls)
    (hr : run step s ls = some s') (hl : ok s' l) : Along step ok s (ls ++ [l]) := by
  induction ls generalizing s with
  | nil =>
    cases hr
    exact ⟨hl,fun _ _ => trivial⟩
  | cons k ls ih =>
    obtain ⟨t,ht,hrest⟩ := run_cons_eq_some hr
    exact .cons h.1 ht (ih (h.2 t ht) hrest)

theorem invariant_along {I : S → Prop}
    (hstep : ∀ s l s', I s → ok s l → step s l = some s' → I s')
    {s s' : S} {ls : List L} (hi : I s) (ha : Along step ok s ls)
    (hr : run step s ls = some s') : I s' := by
  induction ls generalizing s with
  | nil =>
    cases hr
    exact hi
  | cons l ls ih =>
    obtain ⟨t,ht,hrest⟩ := run_cons_eq_some hr
    exact ih (hstep s l t hi ha.1 ht) (ha.2 t ht) hrest

theorem Reachable.invariant {I : S → Prop}
    (hstep : ∀ s l s', I s → step s l = some s' → I s')
    {s₀ s : S} (hi : I s₀) (hr : Reachable step s₀ s) : I s := by
  obtain ⟨ls,h⟩ := hr
  have ha : Along step (fun _ _ => True) s₀ ls := Along.of_forall (fun _ _ => trivial) s₀ ls
  exact invariant_along (fun s l s' hs _ => hstep s l s' hs) hi ha h

end Pprof.Runs
