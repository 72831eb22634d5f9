set_option autoImplicit false

/-! Code of somebody else that is handed a function to call. All that is known of it is that it
asks questions, each of which may depend on the answers so far, and ends. -/

namespace Pprof

inductive Asking (Q A R : Type) where
  | done (r : R)
  | ask (q : Q) (k : A → Asking Q A R)

variable {Q A R S E : Type}

def Asking.run (answer : S → Q → Except E (A × S)) : Asking Q A R → S → Except E (R × S)
  | .done r, s => .ok (r,s)
  | .ask q k, s =>
    match answer s q with
    | .error err => .error err
    | .ok (a,s) => (k a).run answer s

def Asking.eval (f : Q → A) : Asking Q A R → R
  | .done r => r
  | .ask q k => (k (f q)).eval f

/-- If no answer fails while an invariant holds, and each keeps it, then no run fails. -/
theorem Asking.run_ok {answer : S → Q → Except E (A × S)} {I : S → Prop}
    (h : ∀ s q, I s → ∃ a s', answer s q = .ok (a,s') ∧ I s') (code : Asking Q A R) {s : S}
    (hs : I s) : ∃ r s', code.run answer s = .ok (r,s') ∧ I s' := by
  induction code generalizing s with
  | done r => exact ⟨r,s,rfl,hs⟩
  | ask q k ih =>
    obtain ⟨a,s₁,ha,h₁⟩ := h s q hs
    obtain ⟨r,s',hr,h'⟩ := ih a h₁
    exact ⟨r,s',by simp only [Asking.run,ha,hr],h'⟩

/-- Answers that do not depend on the state, though they may change it, give the run a result
that does not depend on it either. -/
theorem Asking.run_eval {answer : S → Q → Except E (A × S)} {I : S → Prop} {f : Q → A}
    (h : ∀ s q, I s → ∃ s', answer s q = .ok (f q,s') ∧ I s') (code : Asking Q A R) {s : S}
    (hs : I s) : ∃ s', code.run answer s = .ok (code.eval f,s') ∧ I s' := by
  induction code generalizing s with
  | done r => exact ⟨s,rfl,hs⟩
  | ask q k ih =>
    obtain ⟨s₁,ha,h₁⟩ := h s q hs
    obtain ⟨s',hr,h'⟩ := ih (f q) h₁
    exact ⟨s',by simp only [Asking.run,Asking.eval,ha,hr],h'⟩

end Pprof
