import Mathlib.Data.List.Basic
set_option autoImplicit false

/-! Threads that take turns in stepping on a shared state. -/

namespace Pprof.Sharing

variable {G P : Type*}

structure Shared (G P : Type*) where
  state : G
  threads : List P

namespace Shared

def go (next : G → P → Option (G × P)) (s : Shared G P) (i : Nat) : Option (Shared G P) :=
  (s.threads[i]?).bind fun p => (next s.state p).map fun r => ⟨r.1,s.threads.set i r.2⟩

def spawn (s : Shared G P) (p : P) : Shared G P := { s with threads := s.threads ++ [p] }

def All (fits : G → P → Prop) (s : Shared G P) : Prop := ∀ p ∈ s.threads, fits s.state p

end Shared

def AtMostOne (busy : P → Bool) (ps : List P) : Prop :=
  ∀ (i j : Nat) (p q : P), ps[i]? = some p → ps[j]? = some q → busy p = true →
    busy q = true → i = j

variable {fits : G → P → Prop} {busy : P → Bool}

theorem go_eq {next : G → P → Option (G × P)} {s s' : Shared G P} {i : Nat}
    (h : s.go next i = some s') :
    ∃ p g p', s.threads[i]? = some p ∧ next s.state p = some (g,p') ∧
      s' = ⟨g,s.threads.set i p'⟩ := by
  obtain ⟨p,hp,hr⟩ := Option.bind_eq_some_iff.mp h
  obtain ⟨⟨g,p'⟩,hn,rfl⟩ := Option.map_eq_some_iff.mp hr
  exact ⟨p,g,p',hp,hn,rfl⟩

theorem mem_set_or {ps : List P} {i : Nat} {p' q : P} (h : q ∈ ps.set i p') :
    q = p' ∨ ∃ j, j ≠ i ∧ ps[j]? = some q := by
  obtain ⟨j,hj⟩ := List.mem_iff_getElem?.mp h
  by_cases hji : j = i
  · subst j
    left
    rw [List.getElem?_set_self'] at hj
    cases hp : ps[i]? <;> simp_all
  · exact Or.inr ⟨j,hji,by rwa [List.getElem?_set_ne (Ne.symm hji)] at hj⟩

theorem mem_set_self {ps : List P} {i : Nat} {p : P} (h : ps[i]? = some p) (p' : P) :
    p' ∈ ps.set i p' :=
  List.mem_set (List.getElem?_eq_some_iff.mp h).1 p'

theorem mem_set_other {ps : List P} {i : Nat} {p q : P} (hi : ps[i]? = some p) (h : q ∈ ps)
    (p' : P) : q = p ∨ q ∈ ps.set i p' := by
  obtain ⟨j,hj⟩ := List.mem_iff_getElem?.mp h
  by_cases hji : j = i
  · subst j
    rw [hi] at hj
    exact Or.inl (Option.some.inj hj).symm
  · refine Or.inr (List.mem_of_getElem? (i := j) ?_)
    rwa [List.getElem?_set_ne (Ne.symm hji)]

/-- What holds of each thread is kept, if the step keeps it for the one that takes it and for
the others. -/
theorem Shared.All.set {s : Shared G P} (h : s.All fits) {i : Nat} {g : G} {p' : P}
    (hown : fits g p')
    (hothers : ∀ j q, j ≠ i → s.threads[j]? = some q → fits s.state q → fits g q) :
    Shared.All fits ⟨g,s.threads.set i p'⟩ := by
  intro q hq
  rcases mem_set_or hq with rfl | ⟨j,hj,hq⟩
  · exact hown
  · exact hothers j q hj hq (h q (List.mem_of_getElem? hq))

theorem Shared.All.spawn {s : Shared G P} (h : s.All fits) {p : P} (hp : fits s.state p) :
    (s.spawn p).All fits := by
  intro q hq
  rcases List.mem_append.mp hq with hq | hq
  · exact h q hq
  · rw [List.mem_singleton.mp hq]
    exact hp

theorem AtMostOne.set {ps : List P} (h : AtMostOne busy ps) {i : Nat} {p p' : P}
    (hp : ps[i]? = some p)
    (hb : busy p' = true → busy p = true ∨ ∀ q ∈ ps, busy q = false) :
    AtMostOne busy (ps.set i p') := by
  have hold : ∀ (j : Nat) (q : P), (ps.set i p')[j]? = some q → busy q = true → j ≠ i →
      ps[j]? = some q ∧ busy q = true := by
    intro j q hq hbq hj
    rw [List.getElem?_set_ne (Ne.symm hj)] at hq
    exact ⟨hq,hbq⟩
  -- whoever is busy beside the thread that moved was so before
  have hself : ∀ (j : Nat) (q : P), (ps.set i p')[j]? = some q → busy q = true →
      busy p' = true → j = i := by
    intro j q hq hbq hbp'
    by_contra hj
    obtain ⟨hq,-⟩ := hold j q hq hbq hj
    rcases hb hbp' with hbp | hnone
    · exact hj (h j i q p hq hp hbq hbp)
    · rw [hnone q (List.mem_of_getElem? hq)] at hbq
      cases hbq
  have hown : ∀ q, (ps.set i p')[i]? = some q → q = p' := by
    intro q hq
    rw [List.getElem?_set_self',hp] at hq
    exact (Option.some.inj hq).symm
  intro j k q r hq hr hbq hbr
  by_cases hj : j = i
  · subst j
    obtain rfl := hown q hq
    exact (hself k r hr hbr hbq).symm
  · by_cases hk : k = i
    · subst k
      obtain rfl := hown r hr
      exact hself j q hq hbq hbr
    · exact h j k q r (hold j q hq hbq hj).1 (hold k r hr hbr hk).1 hbq hbr

theorem AtMostOne.append {ps : List P} (h : AtMostOne busy ps) {p : P} (hp : busy p = false) :
    AtMostOne busy (ps ++ [p]) := by
  have hold : ∀ (j : Nat) (q : P), (ps ++ [p])[j]? = some q → busy q = true → ps[j]? = some q := by
    intro j q hq hbq
    by_cases hj : j < ps.length
    · rwa [List.getElem?_append_left hj] at hq
    · have hmem := List.mem_of_getElem? (by rwa [List.getElem?_append_right (by omega)] at hq)
      rw [List.mem_singleton.mp hmem,hp] at hbq
      cases hbq
  intro i j q r hq hr hbq hbr
  exact h i j q r (hold i q hq hbq) (hold j r hr hbr) hbq hbr

end Pprof.Sharing
