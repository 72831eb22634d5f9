import Pprof.Frames
import Pprof.Lib.Visiting
set_option autoImplicit false

/-! `Trace::trace` of `backtrace/frame_pointer.rs`: the walk along the frame pointers of the
interrupted thread. -/

namespace Pprof
open Visiting

structure IpFrame where
  ip : UInt64
  deriving DecidableEq

class Symbolizer where
  find_enclosing_function : UInt64 → UInt64
  resolve : UInt64 → List Symbol

instance [Symbolizer] : Frame IpFrame where
  ip := IpFrame.ip
  symbol_address frame := Symbolizer.find_enclosing_function frame.ip
  resolve_symbol frame := Symbolizer.resolve frame.ip

structure UContext where
  pc : UInt64
  frame_pointer : UInt64

structure FramePointerLayout where
  frame_pointer : UInt64
  ret : UInt64

/-- The memory that the walk reads and the answers of `validate`, by the number of the
iteration: both may change while the walk goes on. -/
structure Surroundings where
  read_ptr : Nat → UInt64 → FramePointerLayout
  validate : Nat → UInt64 → Bool

structure Iteration where
  number : Nat
  dereferenced : List UInt64
  deriving DecidableEq

variable {S : Type}

/-- The loop with `n` iterations of fuel, from the iteration with number `i` on. -/
def Surroundings.loop (m : Surroundings) (cb : IpFrame → S → Bool × S) :
    Nat → Nat → UInt64 → UInt64 → S → Option (S × List Iteration)
  | 0, _, _, _, _ => none
  | n+1, i, frame_pointer, last_frame_pointer, c =>
    if last_frame_pointer ≠ 0 ∧ frame_pointer < last_frame_pointer then some (c,[])
    else if m.validate i frame_pointer = false then some (c,[⟨i,[]⟩])
    else
      match cb ⟨(m.read_ptr i frame_pointer).ret⟩ c with
      | (false,c) => some (c,[⟨i,[frame_pointer]⟩])
      | (true,c) =>
        (m.loop cb n (i+1) (m.read_ptr i frame_pointer).frame_pointer frame_pointer c).map fun r =>
          (r.1,⟨i,[frame_pointer,frame_pointer]⟩ :: r.2)

def Surroundings.trace (m : Surroundings) (cb : IpFrame → S → Bool × S) (n : Nat)
    (ucontext : Option UContext) (c : S) : Option (S × List Iteration) :=
  match ucontext with
  | none => some (c,[])
  | some ucontext => m.loop cb n 0 ucontext.frame_pointer 0 c

/-- The loop as a producer of frames. Its state is the number of the iteration, the frame
pointer and the last one. -/
def Surroundings.next (m : Surroundings) :
    Nat × UInt64 × UInt64 → Option (IpFrame × Nat × UInt64 × UInt64)
  | (i,frame_pointer,last_frame_pointer) =>
    if last_frame_pointer ≠ 0 ∧ frame_pointer < last_frame_pointer then none
    else if m.validate i frame_pointer = false then none
    else some (⟨(m.read_ptr i frame_pointer).ret⟩,
      i+1,(m.read_ptr i frame_pointer).frame_pointer,frame_pointer)

variable {m : Surroundings} {cb : IpFrame → S → Bool × S}

theorem loop_cases (m : Surroundings) (cb : IpFrame → S → Bool × S) (n i : Nat)
    (frame_pointer last_frame_pointer : UInt64) (c : S) :
    (m.next (i,frame_pointer,last_frame_pointer) = none ∧ ∃ walk,
      (∀ it ∈ walk, it.dereferenced = []) ∧
        m.loop cb (n+1) i frame_pointer last_frame_pointer c = some (c,walk)) ∨
    (m.validate i frame_pointer = true ∧
      m.next (i,frame_pointer,last_frame_pointer) = some (⟨(m.read_ptr i frame_pointer).ret⟩,
        i+1,(m.read_ptr i frame_pointer).frame_pointer,frame_pointer) ∧
      m.loop cb (n+1) i frame_pointer last_frame_pointer c =
        match cb ⟨(m.read_ptr i frame_pointer).ret⟩ c with
        | (false,c) => some (c,[⟨i,[frame_pointer]⟩])
        | (true,c) =>
          (m.loop cb n (i+1) (m.read_ptr i frame_pointer).frame_pointer frame_pointer c).map
            fun r => (r.1,⟨i,[frame_pointer,frame_pointer]⟩ :: r.2)) := by
  by_cases hlast : last_frame_pointer ≠ 0 ∧ frame_pointer < last_frame_pointer
  · left
    simp only [Surroundings.next,Surroundings.loop,if_pos hlast]
    exact ⟨trivial,[],by simp,rfl⟩
  · by_cases hv : m.validate i frame_pointer = false
    · left
      simp only [Surroundings.next,Surroundings.loop,if_neg hlast,if_pos hv]
      exact ⟨trivial,[⟨i,[]⟩],by simp,rfl⟩
    · right
      simp only [Surroundings.next,Surroundings.loop,if_neg hlast,if_neg hv]
      exact ⟨Bool.not_eq_false _ ▸ hv,trivial,trivial⟩

theorem loop_visit (n i : Nat) (frame_pointer last_frame_pointer : UInt64) (c : S) :
    (m.loop cb n i frame_pointer last_frame_pointer c).map Prod.fst =
      (visit m.next cb n (i,frame_pointer,last_frame_pointer) c).map Prod.fst := by
  induction n generalizing i frame_pointer last_frame_pointer c with
  | zero => rfl
  | succ n ih =>
    obtain ⟨hnext,walk,-,hloop⟩ | ⟨-,hnext,hloop⟩ :=
      loop_cases m cb n i frame_pointer last_frame_pointer c
    · rw [hloop,visit,hnext]
      rfl
    · rw [hloop]
      simp only [visit,hnext]
      cases hcb : cb ⟨(m.read_ptr i frame_pointer).ret⟩ c with
      | mk go c' =>
        cases go with
        | false => rfl
        | true =>
          have hi := ih (i+1) (m.read_ptr i frame_pointer).frame_pointer frame_pointer c'
          simp only [Option.map_map]
          simpa [Function.comp_def] using hi

theorem loop_validated {n i : Nat} {frame_pointer last_frame_pointer : UInt64} {c : S}
    {r : S × List Iteration}
    (h : m.loop cb n i frame_pointer last_frame_pointer c = some r) :
    ∀ it ∈ r.2, ∀ ptr ∈ it.dereferenced, m.validate it.number ptr = true := by
  induction n generalizing i frame_pointer last_frame_pointer c r with
  | zero => cases h
  | succ n ih =>
    obtain ⟨-,walk,hwalk,hloop⟩ | ⟨hvalid,-,hloop⟩ :=
      loop_cases m cb n i frame_pointer last_frame_pointer c
    · rw [hloop] at h
      cases h
      intro it hit ptr hptr
      rw [hwalk it hit] at hptr
      cases hptr
    · rw [hloop] at h
      cases hcb : cb ⟨(m.read_ptr i frame_pointer).ret⟩ c with
      | mk go c' =>
        rw [hcb] at h
        cases go with
        | false =>
          cases h
          simp [hvalid]
        | true =>
          obtain ⟨q,hq,rfl⟩ := Option.map_eq_some_iff.mp h
          intro it hit
          rcases List.mem_cons.mp hit with rfl | hit
          · simp [hvalid]
          · exact ih hq it hit

def accept (frame : IpFrame) (ips : List UInt64) : Bool × List UInt64 := (true,ips ++ [frame.ip])

/-- The return addresses along the chain of records that begins at a frame pointer, as far as
the pointers are valid and do not fall below the one before. The chain comes to an end. -/
inductive Chained (m : Surroundings) : Nat → UInt64 → UInt64 → List UInt64 → Prop where
  | ends {i : Nat} {last frame_pointer : UInt64} :
      frame_pointer < last ∨ m.validate i frame_pointer = false →
      Chained m i last frame_pointer []
  | link {i : Nat} {last frame_pointer : UInt64} {rets : List UInt64} :
      ¬ frame_pointer < last → m.validate i frame_pointer = true →
      Chained m (i+1) frame_pointer (m.read_ptr i frame_pointer).frame_pointer rets →
      Chained m i last frame_pointer ((m.read_ptr i frame_pointer).ret :: rets)

theorem below_last {last frame_pointer : UInt64} :
    (last ≠ 0 ∧ frame_pointer < last) ↔ frame_pointer < last := by
  constructor
  · rintro ⟨-,h⟩
    exact h
  · intro h
    refine ⟨?_,h⟩
    rintro rfl
    exact absurd h UInt64.not_lt_zero

theorem loop_accept {i : Nat} {last frame_pointer : UInt64} {rets : List UInt64}
    (h : Chained m i last frame_pointer rets) (n : Nat) (ips : List UInt64) :
    (m.loop accept n i frame_pointer last ips).map Prod.fst =
      if rets.length < n then some (ips ++ rets) else none := by
  induction h generalizing n ips with
  | @ends i last frame_pointer hend =>
    cases n with
    | zero => rfl
    | succ n =>
      by_cases hlast : frame_pointer < last
      · simp [Surroundings.loop,if_pos (below_last.mpr hlast)]
      · have hv := hend.resolve_left hlast
        simp only [Surroundings.loop,if_neg fun h => hlast (below_last.mp h),if_pos hv]
        simp
  | @link i last frame_pointer rets hlast hv _ ih =>
    cases n with
    | zero => rfl
    | succ n =>
      have hvalid : ¬ m.validate i frame_pointer = false := by simp [hv]
      have hi := ih n (ips ++ [(m.read_ptr i frame_pointer).ret])
      simp only [Surroundings.loop,if_neg fun h => hlast (below_last.mp h),if_neg hvalid,accept,
        Option.map_map]
      simpa [Function.comp_def] using hi

/-- The frames offered are the return addresses of the chain, the first of which belongs to
the caller of the interrupted function: its program counter is never offered. -/
theorem trace_omits_pc {ucontext : UContext} {rets : List UInt64}
    (h : Chained m 0 0 ucontext.frame_pointer rets) :
    (∃ n walk, m.trace accept n (some ucontext) [] = some (rets,walk)) ∧
      ¬ ∃ n walk, m.trace accept n (some ucontext) [] = some (ucontext.pc :: rets,walk) := by
  constructor
  · have hrun := loop_accept h (rets.length+1) []
    rw [if_pos (Nat.lt_succ_self _)] at hrun
    obtain ⟨r,hr,hrets⟩ := Option.map_eq_some_iff.mp hrun
    exact ⟨rets.length+1,r.2,hr.trans (congrArg some (Prod.ext hrets rfl))⟩
  · rintro ⟨n,walk,hwalk⟩
    have hrun := loop_accept h n []
    have hpc : (m.loop accept n 0 ucontext.frame_pointer 0 []).map Prod.fst =
        some (ucontext.pc :: rets) := congrArg (Option.map Prod.fst) hwalk
    rw [hpc] at hrun
    by_cases hn : rets.length < n
    · rw [if_pos hn,Option.some.injEq,List.nil_append] at hrun
      have hlen := congrArg List.length hrun
      simp at hlen
    · rw [if_neg hn] at hrun
      cases hrun

def oneRecord : Surroundings :=
  ⟨fun _ _ => ⟨0,2000⟩,fun _ ptr => ptr == 4096⟩

theorem oneRecord_chained : Chained oneRecord 0 0 4096 [2000] :=
  .link (by decide) rfl (.ends (.inl (by decide)))

theorem trace_omits_pc_one : ∃ n walk,
    oneRecord.trace accept n (some ⟨1000,4096⟩) [] = some ([2000],walk) := by
  have h : Chained oneRecord 0 0 (⟨1000,4096⟩ : UContext).frame_pointer [2000] := oneRecord_chained
  exact (trace_omits_pc h).1

theorem interrupted_not_offered : Chained oneRecord 0 0 4096 [2000] ∧ ∃ walk,
    oneRecord.trace accept 2 (some ⟨1000,4096⟩) [] = some ([2000],walk) ∧
      [2000] ≠ [(1000 : UInt64),2000] := ⟨.link (by decide) rfl (.ends (.inl (by decide))),_,rfl,
        by decide⟩

end Pprof
