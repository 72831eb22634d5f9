import Mathlib.Data.List.Basic
set_option autoImplicit false

/-! Iterators given by their `next`, the list of what an iterator yields, and
the two ways this development combines them. -/

namespace Pprof.Iteration

universe u v w

/-- `remaining` bounds the number of items still to come, so an iterator of
this class always comes to an end. -/
class Iter (ι : Type u) (α : outParam (Type v)) where
  next : ι → Option (α × ι)
  remaining : ι → Nat
  next_remaining : ∀ it a it', next it = some (a,it') → remaining it' < remaining it

variable {ι : Type u} {κ : Type w} {α : Type v} [Iter ι α] [Iter κ α]

def collectFuel : Nat → ι → List α
  | 0, _ => []
  | n+1, it =>
    match Iter.next it with
    | none => []
    | some (a,it') => a :: collectFuel n it'

def collect (it : ι) : List α := collectFuel (Iter.remaining it) it

theorem collectFuel_enough {n : Nat} {it : ι} (h : Iter.remaining it ≤ n) :
    collectFuel n it = collect it := by
  suffices ∀ (n m : Nat) (it : ι), Iter.remaining it ≤ n → Iter.remaining it ≤ m →
      collectFuel n it = collectFuel m it from this n _ it h (Nat.le_refl _)
  intro n
  induction n with
  | zero =>
    intro m it hn hm
    cases m with
    | zero => rfl
    | succ m =>
      cases hx : Iter.next it with
      | none => simp [collectFuel,hx]
      | some p =>
        have hr := Iter.next_remaining it p.1 p.2 hx
        omega
  | succ n ih =>
    intro m it hn hm
    cases hx : Iter.next it with
    | none => cases m <;> simp [collectFuel,hx]
    | some p =>
      have hr := Iter.next_remaining it p.1 p.2 hx
      cases m with
      | zero => omega
      | succ m =>
        have hi := ih m p.2 (by omega) (by omega)
        simp [collectFuel,hx,hi]

theorem collect_none {it : ι} (h : Iter.next it = none) : collect it = [] := by
  unfold collect
  cases Iter.remaining it <;> simp [collectFuel,h]

theorem collect_some {it it' : ι} {a : α} (h : Iter.next it = some (a,it')) :
    collect it = a :: collect it' := by
  have hr := Iter.next_remaining it a it' h
  rw [← collectFuel_enough (Nat.le_succ (Iter.remaining it))]
  simp only [collectFuel,h]
  rw [collectFuel_enough (by omega)]

/-- The answer of call number `i` of `next`. An iterator without an item stays as it is. -/
def answer : Nat → ι → Option α
  | 0, it => (Iter.next it).map Prod.fst
  | i+1, it =>
    match Iter.next it with
    | none => answer i it
    | some (_,it') => answer i it'

theorem answer_eq (i : Nat) (it : ι) : answer i it = (collect it)[i]? := by
  induction i generalizing it with
  | zero =>
    cases hx : Iter.next it with
    | none => simp [answer,hx,collect_none hx]
    | some p => simp [answer,hx,collect_some hx]
  | succ i ih =>
    cases hx : Iter.next it with
    | none => simp [answer,hx,ih,collect_none hx]
    | some p => simp [answer,hx,ih,collect_some hx]

/-- First the items of `a`, until it is exhausted and dropped, then those of `b`. -/
structure Chain (ι : Type u) (κ : Type w) where
  a : Option ι
  b : κ

def chain (a : ι) (b : κ) : Chain ι κ := ⟨some a,b⟩

def Chain.next (it : Chain ι κ) : Option (α × Chain ι κ) :=
  match it.a.bind Iter.next with
  | some (x,a) => some (x,⟨some a,it.b⟩)
  | none => (Iter.next it.b).map fun (x,b) => (x,⟨none,b⟩)

def Chain.remaining (it : Chain ι κ) : Nat :=
  (it.a.map Iter.remaining).getD 0 + Iter.remaining it.b

theorem Chain.next_remaining (it : Chain ι κ) (x : α) (it' : Chain ι κ)
    (h : it.next = some (x,it')) : it'.remaining < it.remaining := by
  obtain ⟨a,b⟩ := it
  cases ha : a.bind Iter.next with
  | some p =>
    obtain ⟨a',rfl,hp⟩ := Option.bind_eq_some_iff.mp ha
    have hr := Iter.next_remaining a' p.1 p.2 hp
    simp only [Chain.next,ha,Option.some.injEq,Prod.mk.injEq] at h
    obtain ⟨rfl,rfl⟩ := h
    simp only [Chain.remaining,Option.map_some,Option.getD_some]
    omega
  | none =>
    simp only [Chain.next,ha,Option.map_eq_some_iff] at h
    obtain ⟨p,hp,he⟩ := h
    have hr := Iter.next_remaining b p.1 p.2 hp
    cases he
    simp only [Chain.remaining,Option.map_none,Option.getD_none]
    omega

instance : Iter (Chain ι κ) α where
  next := Chain.next
  remaining := Chain.remaining
  next_remaining := Chain.next_remaining

theorem collect_chain_none (b : κ) : collect (⟨none,b⟩ : Chain ι κ) = collect b := by
  generalize hn : Iter.remaining b = n
  induction n using Nat.strongRecOn generalizing b with
  | ind n ih =>
    cases hb : Iter.next b with
    | none =>
      rw [collect_none hb]
      exact collect_none (show Chain.next (⟨none,b⟩ : Chain ι κ) = none by simp [Chain.next,hb])
    | some p =>
      have hr := Iter.next_remaining b p.1 p.2 hb
      have hc : Chain.next (⟨none,b⟩ : Chain ι κ) = some (p.1,⟨none,p.2⟩) := by
        simp [Chain.next,hb]
      rw [collect_some hb,collect_some (show Iter.next (⟨none,b⟩ : Chain ι κ) = _ from hc),
        ih _ (by omega) p.2 rfl]

theorem collect_chain (a : ι) (b : κ) : collect (chain a b) = collect a ++ collect b := by
  generalize hn : Iter.remaining a = n
  induction n using Nat.strongRecOn generalizing a with
  | ind n ih =>
    cases ha : Iter.next a with
    | some p =>
      have hr := Iter.next_remaining a p.1 p.2 ha
      have hc : Iter.next (chain a b) = some (p.1,chain p.2 b) := by
        simp [Iter.next,Chain.next,chain,ha]
      rw [collect_some ha,collect_some hc,ih _ (by omega) p.2 rfl]
      rfl
    | none =>
      rw [collect_none ha,List.nil_append,← show collect (⟨none,b⟩ : Chain ι κ) = collect b from
        collect_chain_none b]
      cases hb : Iter.next b with
      | none =>
        have h₁ : Iter.next (chain a b) = none := by simp [Iter.next,Chain.next,chain,ha,hb]
        have h₂ : Iter.next (⟨none,b⟩ : Chain ι κ) = none := by simp [Iter.next,Chain.next,hb]
        rw [collect_none h₁,collect_none h₂]
      | some p =>
        have h₁ : Iter.next (chain a b) = some (p.1,⟨none,p.2⟩) := by
          simp [Iter.next,Chain.next,chain,ha,hb]
        have h₂ : Iter.next (⟨none,b⟩ : Chain ι κ) = some (p.1,⟨none,p.2⟩) := by
          simp [Iter.next,Chain.next,hb]
        rw [collect_some h₁,collect_some h₂]

/-- A chain of any number of iterators of one type, built from the left as
`((it₀.chain(it₁)).chain(it₂))..` behind a `Box`. An exhausted front is dropped. -/
inductive Boxed (ι : Type u) where
  | one (it : ι)
  | chain (a : Boxed ι) (b : ι)

def Boxed.next : Boxed ι → Option (α × Boxed ι)
  | .one it => (Iter.next it).map fun (x,it) => (x,.one it)
  | .chain a b =>
    match a.next with
    | some (x,a) => some (x,.chain a b)
    | none => (Iter.next b).map fun (x,b) => (x,.one b)

def Boxed.remaining : Boxed ι → Nat
  | .one it => Iter.remaining it
  | .chain a b => a.remaining + Iter.remaining b

theorem Boxed.next_remaining (it : Boxed ι) (x : α) (it' : Boxed ι)
    (h : it.next = some (x,it')) : it'.remaining < it.remaining := by
  induction it generalizing x it' with
  | one it =>
    obtain ⟨p,hp,he⟩ := Option.map_eq_some_iff.mp h
    have hr := Iter.next_remaining it p.1 p.2 hp
    cases he
    exact hr
  | chain a b ih =>
    cases ha : a.next with
    | some p =>
      have hr := ih p.1 p.2 ha
      simp only [next,ha,Option.some.injEq,Prod.mk.injEq] at h
      obtain ⟨rfl,rfl⟩ := h
      simp only [remaining]
      omega
    | none =>
      simp only [next,ha,Option.map_eq_some_iff] at h
      obtain ⟨p,hp,he⟩ := h
      have hr := Iter.next_remaining b p.1 p.2 hp
      cases he
      simp only [remaining]
      omega

instance : Iter (Boxed ι) α where
  next := Boxed.next
  remaining := Boxed.remaining
  next_remaining := Boxed.next_remaining

theorem collect_one (it : ι) : collect (Boxed.one it) = collect it := by
  generalize hn : Iter.remaining it = n
  induction n using Nat.strongRecOn generalizing it with
  | ind n ih =>
    cases hx : Iter.next it with
    | none =>
      have hb : Iter.next (Boxed.one it) = none := by simp [Iter.next,Boxed.next,hx]
      rw [collect_none hx,collect_none hb]
    | some p =>
      have hr := Iter.next_remaining it p.1 p.2 hx
      have hb : Iter.next (Boxed.one it) = some (p.1,Boxed.one p.2) := by
        simp [Iter.next,Boxed.next,hx]
      rw [collect_some hx,collect_some hb,ih _ (by omega) p.2 rfl]

theorem collect_boxed_chain (a : Boxed ι) (b : ι) :
    collect (Boxed.chain a b) = collect a ++ collect b := by
  generalize hn : Iter.remaining a = n
  induction n using Nat.strongRecOn generalizing a with
  | ind n ih =>
    cases ha : a.next with
    | some p =>
      have hr := Boxed.next_remaining a p.1 p.2 ha
      have hc : Iter.next (Boxed.chain a b) = some (p.1,Boxed.chain p.2 b) := by
        simp [Iter.next,Boxed.next,ha]
      rw [collect_some (show Iter.next a = some (p.1,p.2) from ha),collect_some hc,
        ih _ (by subst hn; exact hr) p.2 rfl]
      rfl
    | none =>
      rw [collect_none (show Iter.next a = none from ha),List.nil_append,← collect_one b]
      cases hb : Iter.next b with
      | none =>
        have h₁ : Iter.next (Boxed.chain a b) = none := by simp [Iter.next,Boxed.next,ha,hb]
        have h₂ : Iter.next (Boxed.one b) = none := by simp [Iter.next,Boxed.next,hb]
        rw [collect_none h₁,collect_none h₂]
      | some p =>
        have h₁ : Iter.next (Boxed.chain a b) = some (p.1,Boxed.one p.2) := by
          simp [Iter.next,Boxed.next,ha,hb]
        have h₂ : Iter.next (Boxed.one b) = some (p.1,Boxed.one p.2) := by
          simp [Iter.next,Boxed.next,hb]
        rw [collect_some h₁,collect_some h₂]

end Pprof.Iteration
