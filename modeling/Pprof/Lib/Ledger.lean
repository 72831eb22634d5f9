import Pprof.Lib.FormalSum
set_option autoImplicit false

/-! A ledger keeps weighted entries for a history of postings. It may book a
posting under another key of the same account, and it may keep several entries
for one account; what it must not do is lose or invent weight. -/

namespace Pprof.Ledger
open FormalSum

variable {α : Type*} {same : α → α → Bool}

/-- `reps` gives, posting by posting, the key it was booked under: one of the same
account that had been posted by then. -/
inductive Booked (same : α → α → Bool) : List (α × ℤ) → List (α × ℤ) → Prop where
  | nil : Booked same [] []
  | snoc {hist reps : List (α × ℤ)} {k r : α} {n : ℤ} : Booked same hist reps →
      same k r = true → r ∈ (hist ++ [(k,n)]).map Prod.fst →
      Booked same (hist ++ [(k,n)]) (reps ++ [(r,n)])

/-- `e` holds what `l` posts to its account, one of these postings under its very key. -/
def Posted (same : α → α → Bool) (l : List (α × ℤ)) (e : α × ℤ) : Prop :=
  e.1 ∈ l.map Prod.fst ∧ e.2 = total (same · e.1) l

/-- The entries `es` are the bookings of `hist`, and each of them holds what was
posted to its account between two moments. -/
structure Balances (same : α → α → Bool) (hist es : List (α × ℤ)) : Prop where
  booked : ∃ reps, Booked same hist reps ∧ formalSum es = formalSum reps
  posted : ∀ e ∈ es, ∃ l, l <:+: hist ∧ Posted same l e

theorem balances_nil : Balances same [] [] := ⟨⟨[],.nil,rfl⟩,by simp⟩

theorem Booked.get {hist reps : List (α × ℤ)} (h : Booked same hist reps) :
    reps.length = hist.length ∧ ∀ (i : Nat) (h₁ : i < hist.length) (h₂ : i < reps.length),
      same hist[i].1 reps[i].1 = true ∧ reps[i].2 = hist[i].2 ∧
        reps[i].1 ∈ (hist.take (i+1)).map Prod.fst := by
  induction h with
  | nil => simp
  | @snoc hist reps k r n _ hk hr ih =>
    obtain ⟨hlen,hget⟩ := ih
    refine ⟨by simp [hlen],fun i h₁ h₂ => ?_⟩
    by_cases hi : i < hist.length
    · have hg := hget i hi (by omega)
      rw [List.getElem_append_left hi,List.getElem_append_left (by omega),
        List.take_append_of_le_length hi]
      exact hg
    · have he : i = hist.length := by
        rw [List.length_append,List.length_singleton] at h₁
        omega
      subst he
      have ht : (hist ++ [(k,n)]).take (hist.length+1) = hist ++ [(k,n)] :=
        List.take_of_length_le (by simp)
      rw [ht]
      simp only [List.getElem_concat_length,← hlen]
      exact ⟨hk,trivial,hr⟩

theorem Booked.weigh_eq {hist reps : List (α × ℤ)} (h : Booked same hist reps) {w : α → ℤ}
    (hw : ∀ a ∈ hist.map Prod.fst, ∀ b ∈ hist.map Prod.fst, same a b = true → w a = w b) :
    weigh w reps = weigh w hist := by
  induction h with
  | nil => rfl
  | @snoc hist reps k r n _ hk hr ih =>
    have hi := ih fun a ha b hb => hw a (by simp at ha ⊢; tauto) b (by simp at hb ⊢; tauto)
    have hkr := hw k (by simp) r hr hk
    simp [hi,hkr]

theorem Balances.weigh_eq {hist es : List (α × ℤ)} (h : Balances same hist es) {w : α → ℤ}
    (hw : ∀ a ∈ hist.map Prod.fst, ∀ b ∈ hist.map Prod.fst, same a b = true → w a = w b) :
    weigh w es = weigh w hist := by
  obtain ⟨reps,hb,hs⟩ := h.booked
  rw [weigh_eq_of_formalSum_eq hs,hb.weigh_eq hw]

theorem Balances.total_eq {hist es : List (α × ℤ)} (h : Balances same hist es) {p : α → Bool}
    (hp : ∀ a b, same a b = true → p a = p b) : total p es = total p hist := by
  apply h.weigh_eq
  intro a _ b _ hab
  rw [hp a b hab]

theorem Balances.mem {hist es : List (α × ℤ)} (h : Balances same hist es) {e : α × ℤ}
    (he : e ∈ es) : e.1 ∈ hist.map Prod.fst := by
  obtain ⟨l,⟨s,t,rfl⟩,hm,-⟩ := h.posted e he
  simp only [List.map_append,List.mem_append]
  exact .inl (.inr hm)

theorem Balances.snoc {hist es es' : List (α × ℤ)} (h : Balances same hist es) {k r : α} {n : ℤ}
    (hk : same k r = true) (hr : r = k ∨ ∃ e ∈ es, e.1 = r)
    (hsum : formalSum es' = formalSum es + Finsupp.single r n)
    (hposted : ∀ e ∈ es', ∃ l, l <:+: hist ++ [(k,n)] ∧ Posted same l e) :
    Balances same (hist ++ [(k,n)]) es' := by
  obtain ⟨reps,hb,hs⟩ := h.booked
  have hmem : r ∈ (hist ++ [(k,n)]).map Prod.fst := by
    rw [List.map_append,List.mem_append]
    rcases hr with rfl | ⟨e,he,rfl⟩
    · exact .inr (by simp)
    · exact .inl (h.mem he)
  exact ⟨⟨reps ++ [(r,n)],hb.snoc hk hmem,by simp [hsum,hs]⟩,hposted⟩

theorem Balances.pos {hist es : List (α × ℤ)} (h : Balances same hist es)
    (hrefl : ∀ a, same a a = true) (hpos : ∀ a ∈ hist, 0 < a.2) : ∀ e ∈ es, 0 < e.2 := by
  intro e he
  obtain ⟨l,⟨s,t,rfl⟩,hm,hn⟩ := h.posted e he
  rw [hn]
  exact total_pos (fun x hx => hpos x (by simp [hx])) ⟨e.1,hm,hrefl e.1⟩

theorem Posted.hit {l : List (α × ℤ)} {e : α × ℤ} (h : Posted same l e) {k : α} {n : ℤ}
    (hk : same k e.1 = true) : Posted same (l ++ [(k,n)]) (e.1,e.2+n) := by
  obtain ⟨hm,hn⟩ := h
  refine ⟨by simp only [List.map_append,List.mem_append]; exact .inl hm,?_⟩
  rw [total_append,total_cons,if_pos hk,← hn]
  simp

theorem Posted.miss {l : List (α × ℤ)} {e : α × ℤ} (h : Posted same l e) {k : α} {n : ℤ}
    (hk : same k e.1 = false) : Posted same (l ++ [(k,n)]) e := by
  obtain ⟨hm,hn⟩ := h
  refine ⟨by simp only [List.map_append,List.mem_append]; exact .inl hm,?_⟩
  rw [total_append,total_cons,hk,← hn]
  simp

theorem Posted.new {k : α} (n : ℤ) (hk : same k k = true) : Posted same [(k,n)] (k,n) := by
  refine ⟨by simp,?_⟩
  rw [total_cons,if_pos hk]
  simp

end Pprof.Ledger
