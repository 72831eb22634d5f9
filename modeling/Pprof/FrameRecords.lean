import Mathlib.Data.Fintype.Card
import Mathlib.Data.Fintype.EquivFin
import Pprof.FramePointer
set_option autoImplicit false

/-! The frame records that the walk along the frame pointers visits, in the order of their
addresses. The walk never descends; it climbs as long as no record but the last is linked to
itself. -/

namespace Pprof

variable {S : Type} {m : Surroundings} {cb : IpFrame → S → Bool × S}

/-- The records that the first `n` iterations of the loop report, each with the number of the
iteration. -/
def Surroundings.records (m : Surroundings) (cb : IpFrame → S → Bool × S) :
    Nat → Nat → UInt64 → UInt64 → S → List (Nat × UInt64)
  | 0, _, _, _, _ => []
  | n+1, i, frame_pointer, last_frame_pointer, c =>
    if last_frame_pointer ≠ 0 ∧ frame_pointer < last_frame_pointer then []
    else if m.validate i frame_pointer = false then []
    else
      (i,frame_pointer) ::
        match cb ⟨(m.read_ptr i frame_pointer).ret⟩ c with
        | (false,_) => []
        | (true,c) =>
          m.records cb n (i+1) (m.read_ptr i frame_pointer).frame_pointer frame_pointer c

def Iteration.record (it : Iteration) : Option (Nat × UInt64) :=
  it.dereferenced.head?.map fun ptr => (it.number,ptr)

theorem iteration_cases (m : Surroundings) (cb : IpFrame → S → Bool × S) (n i : Nat)
    (frame_pointer last : UInt64) (c : S) :
    (m.records cb (n+1) i frame_pointer last c = [] ∧
      ∃ it, it.filterMap Iteration.record = [] ∧
        m.loop cb (n+1) i frame_pointer last c = some (c,it)) ∨
    (¬ frame_pointer < last ∧
      ((∃ c', m.records cb (n+1) i frame_pointer last c = [(i,frame_pointer)] ∧
        m.loop cb (n+1) i frame_pointer last c = some (c',[⟨i,[frame_pointer]⟩])) ∨
      ∃ c', m.records cb (n+1) i frame_pointer last c = (i,frame_pointer) ::
          m.records cb n (i+1) (m.read_ptr i frame_pointer).frame_pointer frame_pointer c' ∧
        m.loop cb (n+1) i frame_pointer last c =
          (m.loop cb n (i+1) (m.read_ptr i frame_pointer).frame_pointer frame_pointer c').map
            fun r => (r.1,⟨i,[frame_pointer,frame_pointer]⟩ :: r.2))) := by
  by_cases hlast : last ≠ 0 ∧ frame_pointer < last
  · left
    simp only [Surroundings.records,Surroundings.loop,if_pos hlast]
    exact ⟨trivial,[],rfl,rfl⟩
  · by_cases hv : m.validate i frame_pointer = false
    · left
      simp only [Surroundings.records,Surroundings.loop,if_neg hlast,if_pos hv]
      exact ⟨trivial,[⟨i,[]⟩],rfl,rfl⟩
    · right
      refine ⟨fun h => hlast (below_last.mpr h),?_⟩
      simp only [Surroundings.records,Surroundings.loop,if_neg hlast,if_neg hv]
      cases hcb : cb ⟨(m.read_ptr i frame_pointer).ret⟩ c with
      | mk go c' =>
        cases go with
        | false => exact .inl ⟨c',rfl,rfl⟩
        | true => exact .inr ⟨c',rfl,rfl⟩

theorem loop_records {n i : Nat} {frame_pointer last : UInt64} {c : S}
    {r : S × List Iteration} (h : m.loop cb n i frame_pointer last c = some r) :
    m.records cb n i frame_pointer last c = r.2.filterMap Iteration.record := by
  induction n generalizing i frame_pointer last c r with
  | zero => cases h
  | succ n ih =>
    rcases iteration_cases m cb n i frame_pointer last c with
      ⟨hrec,it,hit,hloop⟩ | ⟨-,⟨c',hrec,hloop⟩ | ⟨c',hrec,hloop⟩⟩
    · rw [hloop] at h
      cases h
      rw [hrec,hit]
    · rw [hloop] at h
      cases h
      rw [hrec]
      rfl
    · rw [hloop] at h
      obtain ⟨q,hq,rfl⟩ := Option.map_eq_some_iff.mp h
      rw [hrec,ih hq]
      rfl

theorem records_length {n i : Nat} {frame_pointer last : UInt64} {c : S}
    (h : m.loop cb n i frame_pointer last c = none) :
    (m.records cb n i frame_pointer last c).length = n := by
  induction n generalizing i frame_pointer last c with
  | zero => rfl
  | succ n ih =>
    rcases iteration_cases m cb n i frame_pointer last c with
      ⟨-,it,-,hloop⟩ | ⟨-,⟨c',-,hloop⟩ | ⟨c',hrec,hloop⟩⟩
    · rw [hloop] at h
      cases h
    · rw [hloop] at h
      cases h
    · rw [hloop,Option.map_eq_none_iff] at h
      rw [hrec,List.length_cons,ih h]

theorem records_above (n i : Nat) (frame_pointer last : UInt64) (c : S) :
    ∀ v ∈ m.records cb n i frame_pointer last c, last ≤ frame_pointer ∧ frame_pointer ≤ v.2 := by
  induction n generalizing i frame_pointer last c with
  | zero => nofun
  | succ n ih =>
    rcases iteration_cases m cb n i frame_pointer last c with
      ⟨hrec,-⟩ | ⟨hlast,⟨c',hrec,-⟩ | ⟨c',hrec,-⟩⟩
    · rw [hrec]
      nofun
    · rw [hrec]
      intro v hv
      obtain rfl := List.mem_singleton.mp hv
      exact ⟨UInt64.not_lt.mp hlast,UInt64.le_refl _⟩
    · rw [hrec]
      intro v hv
      rcases List.mem_cons.mp hv with rfl | hv
      · exact ⟨UInt64.not_lt.mp hlast,UInt64.le_refl _⟩
      · obtain ⟨hnext,hle⟩ := ih _ _ _ _ v hv
        exact ⟨UInt64.not_lt.mp hlast,UInt64.le_trans hnext hle⟩

def Surroundings.addresses (m : Surroundings) (cb : IpFrame → S → Bool × S) (n i : Nat)
    (frame_pointer last : UInt64) (c : S) : List UInt64 :=
  (m.records cb n i frame_pointer last c).map Prod.snd

/-- A relation between each record but the last and what is not below the one that it is linked
to holds between any two records in the order in which they are visited. -/
theorem addresses_pairwise {R : UInt64 → UInt64 → Prop} {n i : Nat}
    {frame_pointer last : UInt64} {c : S}
    (h : ∀ v ∈ (m.records cb n i frame_pointer last c).dropLast, ∀ a,
      v.2 ≤ (m.read_ptr v.1 v.2).frame_pointer → (m.read_ptr v.1 v.2).frame_pointer ≤ a →
        R v.2 a) : (m.addresses cb n i frame_pointer last c).Pairwise R := by
  unfold Surroundings.addresses
  induction n generalizing i frame_pointer last c with
  | zero => exact .nil
  | succ n ih =>
    rcases iteration_cases m cb n i frame_pointer last c with
      ⟨hrec,-⟩ | ⟨-,⟨c',hrec,-⟩ | ⟨c',hrec,-⟩⟩
    · rw [hrec]
      exact .nil
    · rw [hrec]
      exact List.pairwise_singleton _ _
    · rw [hrec] at h ⊢
      by_cases hlast : m.records cb n (i+1) (m.read_ptr i frame_pointer).frame_pointer
          frame_pointer c' = []
      · rw [hlast]
        exact List.pairwise_singleton _ _
      rw [List.dropLast_cons_of_ne_nil hlast] at h
      rw [List.map_cons,List.pairwise_cons]
      refine ⟨?_,ih fun v hv => h v (List.mem_cons_of_mem _ hv)⟩
      intro a ha
      obtain ⟨v,hv,rfl⟩ := List.mem_map.mp ha
      obtain ⟨hnext,hle⟩ := records_above _ _ _ _ _ v hv
      exact h (i,frame_pointer) List.mem_cons_self _ hnext hle

theorem addresses_ascend (n i : Nat) (frame_pointer last : UInt64) (c : S) :
    (m.addresses cb n i frame_pointer last c).Pairwise (· ≤ ·) :=
  addresses_pairwise fun _ _ _ hnext hle => UInt64.le_trans hnext hle

def Surroundings.SelfLinked (m : Surroundings) (v : Nat × UInt64) : Prop :=
  (m.read_ptr v.1 v.2).frame_pointer = v.2

theorem addresses_climb {n i : Nat} {frame_pointer last : UInt64} {c : S}
    (h : ∀ v ∈ (m.records cb n i frame_pointer last c).dropLast, ¬ m.SelfLinked v) :
    (m.addresses cb n i frame_pointer last c).Pairwise (· < ·) := by
  refine addresses_pairwise fun v hv a hnext hle => ?_
  have hlt : v.2 < (m.read_ptr v.1 v.2).frame_pointer :=
    UInt64.lt_of_le_of_ne hnext (Ne.symm (h v hv))
  exact UInt64.lt_of_lt_of_le hlt hle

theorem climbing_length {l : List UInt64} (h : l.Pairwise (· < ·)) : l.length ≤ 2^64 := by
  have hnodup : (l.map UInt64.toFin).Nodup := by
    rw [List.Nodup,List.pairwise_map]
    exact h.imp fun hlt heq => UInt64.ne_of_lt hlt (UInt64.toFin_inj.mp heq)
  have hcard := hnodup.length_le_card
  rw [List.length_map,Fintype.card_fin] at hcard
  exact hcard

/-- The walk never descends, whatever the memory and the callback. If it visits nothing after a
record that is linked to itself it climbs, so that no record is reported twice, and ends, even
if the callback accepts every frame. -/
theorem walk_climbs (m : Surroundings) (cb : IpFrame → S → Bool × S) (ucontext : UContext)
    (c : S) :
    (∀ n, (m.addresses cb n 0 ucontext.frame_pointer 0 c).Pairwise (· ≤ ·)) ∧
      ((∀ n, ∀ v ∈ (m.records cb n 0 ucontext.frame_pointer 0 c).dropLast, ¬ m.SelfLinked v) →
        (∀ n, (m.addresses cb n 0 ucontext.frame_pointer 0 c).Pairwise (· < ·)) ∧
          ∃ r, m.trace cb (2^64+1) (some ucontext) c = some r) := by
  refine ⟨fun n => addresses_ascend n _ _ _ _,fun h => ?_⟩
  have hclimb : ∀ n, (m.addresses cb n 0 ucontext.frame_pointer 0 c).Pairwise (· < ·) :=
    fun n => addresses_climb (h n)
  refine ⟨hclimb,?_⟩
  cases hr : m.trace cb (2^64+1) (some ucontext) c with
  | some r => exact ⟨r,rfl⟩
  | none =>
    have hlength : (m.records cb (2^64+1) 0 ucontext.frame_pointer 0 c).length = 2^64+1 :=
      records_length hr
    have hle := climbing_length (hclimb (2^64+1))
    rw [Surroundings.addresses,List.length_map,hlength] at hle
    omega

def twoRecords : Surroundings where
  read_ptr _ ptr := if ptr == 4096 then ⟨8192,2000⟩ else ⟨0,3000⟩
  validate _ ptr := ptr == 4096 || ptr == 8192

theorem walk_climbs_two :
    (∀ n, (twoRecords.addresses accept n 0 4096 0 []).Pairwise (· < ·)) ∧
      ∃ r, twoRecords.trace accept (2^64+1) (some ⟨1000,4096⟩) [] = some r := by
  have hlinks : ∀ n, ∀ v ∈ (twoRecords.records accept n 0 (⟨1000,4096⟩ : UContext).frame_pointer
      0 []).dropLast, ¬ twoRecords.SelfLinked v := by
    intro n
    match n with
    | 0 | 1 => nofun
    | 2 | _+3 =>
      intro v hv
      obtain rfl := List.mem_singleton.mp hv
      exact fun hself => absurd hself (by decide : (8192 : UInt64) ≠ 4096)
  exact (walk_climbs twoRecords accept ⟨1000,4096⟩ []).2 hlinks

def selfLink : Surroundings := ⟨fun _ _ => ⟨4096,2000⟩,fun _ ptr => ptr == 4096⟩

/-- It is reported over and over, and the walk never ends. -/
theorem self_link_walked : selfLink.addresses accept 2 0 4096 0 [] = [4096,4096] ∧
    ∀ n, selfLink.trace accept n (some ⟨1000,4096⟩) [] = none := by
  refine ⟨rfl,fun n => ?_⟩
  have hloop : ∀ i last ips, (last = 0 ∨ last = 4096) →
      selfLink.loop accept n i 4096 last ips = none := by
    induction n with
    | zero => exact fun _ _ _ _ => rfl
    | succ n ih =>
      intro i last ips hlast
      have hguard : ¬ (last ≠ 0 ∧ 4096 < last) := by
        rcases hlast with rfl | rfl <;> decide
      have hv : ¬ selfLink.validate i 4096 = false := by simp [selfLink]
      simp only [Surroundings.loop,if_neg hguard,if_neg hv,accept,Option.map_eq_none_iff]
      exact ih _ _ _ (.inr rfl)
  exact hloop 0 0 [] (.inl rfl)

end Pprof
