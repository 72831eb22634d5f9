import Mathlib.Data.List.Basic
set_option autoImplicit false

/-! A producer that hands its items to a callback until the callback declines one or there
are no more. The producer may be endless; that the visit ends is then up to the callback. -/

namespace Pprof.Visiting

variable {σ F S : Type*}

def offered (next : σ → Option (F × σ)) : Nat → σ → List F
  | 0, _ => []
  | n+1, s =>
    match next s with
    | none => []
    | some (x,s) => x :: offered next n s

/-- The state of the callback at the end and how often it was called. There is no result
when the fuel runs out first. -/
def visit (next : σ → Option (F × σ)) (cb : F → S → Bool × S) : Nat → σ → S → Option (S × Nat)
  | 0, _, _ => none
  | n+1, s, c =>
    match next s with
    | none => some (c,0)
    | some (x,s) =>
      match cb x c with
      | (false,c) => some (c,1)
      | (true,c) => (visit next cb n s c).map fun r => (r.1,r.2+1)

def feed (cb : F → S → Bool × S) : List F → S → S × Nat
  | [], c => (c,0)
  | x :: xs, c =>
    match cb x c with
    | (false,c) => (c,1)
    | (true,c) => ((feed cb xs c).1,(feed cb xs c).2+1)

variable {next : σ → Option (F × σ)} {cb : F → S → Bool × S}

/-- A visit that ends has met no more than any longer stretch of items begins with. -/
theorem visit_eq_feed {n : Nat} {s : σ} {c : S} {r : S × Nat} (h : visit next cb n s c = some r)
    {m : Nat} (hm : n ≤ m) : feed cb (offered next m s) c = r := by
  induction n generalizing m s c r with
  | zero => cases h
  | succ n ih =>
    obtain ⟨m,rfl⟩ := Nat.exists_eq_add_of_le' (Nat.lt_of_lt_of_le (Nat.succ_pos n) hm)
    cases hx : next s with
    | none =>
      simp only [visit,hx,Option.some.injEq] at h
      simp [offered,hx,feed,h]
    | some p =>
      cases hc : cb p.1 c with
      | mk go c' =>
        cases go with
        | false =>
          simp only [visit,hx,hc,Option.some.injEq] at h
          simp [offered,hx,feed,hc,h]
        | true =>
          simp only [visit,hx,hc,Option.map_eq_some_iff] at h
          obtain ⟨q,hq,rfl⟩ := h
          have hi := ih hq (m := m) (by omega)
          simp only [offered,hx,feed,hc,hi]

theorem visit_mono {n m : Nat} (hm : n ≤ m) {s : σ} {c : S} {r : S × Nat}
    (h : visit next cb n s c = some r) : visit next cb m s c = some r := by
  induction n generalizing m s c r with
  | zero => cases h
  | succ n ih =>
    obtain ⟨m,rfl⟩ := Nat.exists_eq_add_of_le' (Nat.lt_of_lt_of_le (Nat.succ_pos n) hm)
    cases hx : next s with
    | none => simpa [visit,hx] using h
    | some p =>
      rcases hc : cb p.1 c with ⟨go,c'⟩
      cases go with
      | false => simpa [visit,hx,hc] using h
      | true =>
        simp only [visit,hx,hc,Option.map_eq_some_iff] at h ⊢
        obtain ⟨q,hq,rfl⟩ := h
        exact ⟨q,ih (Nat.le_of_succ_le_succ hm) hq,rfl⟩

/-- A callback that can accept only so often ends every visit. -/
theorem visit_ends {left : S → Nat} (h : ∀ x c, (cb x c).1 = true → left (cb x c).2 < left c)
    {n : Nat} {s : σ} {c : S} (hn : left c < n) :
    ∃ r, visit next cb n s c = some r ∧ r.2 ≤ left c+1 := by
  induction n generalizing s c with
  | zero => omega
  | succ n ih =>
    cases hx : next s with
    | none => exact ⟨(c,0),by simp [visit,hx],Nat.zero_le _⟩
    | some p =>
      have hdec := h p.1 c
      cases hc : cb p.1 c with
      | mk go c' =>
        rw [hc] at hdec
        cases go with
        | false => exact ⟨(c',1),by simp [visit,hx,hc],by simp⟩
        | true =>
          have hlt := hdec rfl
          obtain ⟨r,hr,hle⟩ := ih (s := p.2) (c := c') (by simp only at hlt; omega)
          refine ⟨(r.1,r.2+1),by simp [visit,hx,hc,hr],?_⟩
          simp only at hlt ⊢
          omega

end Pprof.Visiting
