import Pprof.Lib.Runs
set_option autoImplicit false

/-! Steps that can always be taken until there is nothing left to do, and not for ever. -/

namespace Pprof.Runs

variable {S L : Type*} {step : S → L → Option S}

/-- The steps that `own` picks out lead on from every state in which there is work, and each of
them leaves less of it. -/
structure Advances (step : S → L → Option S) (I quiet : S → Prop) (own : L → Prop)
    (work : S → Nat) : Prop where
  enabled : ∀ s, I s → ¬ quiet s → ∃ l s', own l ∧ step s l = some s'
  lowers : ∀ s l s', I s → own l → step s l = some s' → I s' ∧ work s' < work s

variable {I quiet : S → Prop} {own : L → Prop} {work : S → Nat}

theorem Advances.length_le (h : Advances step I quiet own work) {s s' : S} {ls : List L}
    (hi : I s) (ho : ∀ l ∈ ls, own l) (hr : run step s ls = some s') :
    I s' ∧ ls.length+work s' ≤ work s := by
  induction ls generalizing s with
  | nil =>
    cases hr
    exact ⟨hi,by simp⟩
  | cons l ls ih =>
    obtain ⟨t,ht,hrest⟩ := run_cons_eq_some hr
    obtain ⟨hit,hlt⟩ := h.lowers s l t hi (ho l (by simp)) ht
    obtain ⟨his',hle⟩ := ih hit (fun k hk => ho k (by simp [hk])) hrest
    refine ⟨his',?_⟩
    rw [List.length_cons]
    omega

theorem Advances.ends (h : Advances step I quiet own work) {s : S} (hi : I s) :
    ∃ ls s', (∀ l ∈ ls, own l) ∧ run step s ls = some s' ∧ quiet s' := by
  induction hw : work s using Nat.strongRecOn generalizing s with
  | ind w ih =>
    subst hw
    by_cases hq : quiet s
    · exact ⟨[],s,by simp,rfl,hq⟩
    · obtain ⟨l,t,hl,ht⟩ := h.enabled s hi hq
      obtain ⟨hit,hlt⟩ := h.lowers s l t hi hl ht
      obtain ⟨ls,s',hls,hr,hq'⟩ := ih (work t) hlt hit rfl
      refine ⟨l :: ls,s',?_,(run_cons_some ht ls).trans hr,hq'⟩
      intro k hk
      rcases List.mem_cons.mp hk with rfl | hk
      · exact hl
      · exact hls k hk

end Pprof.Runs
