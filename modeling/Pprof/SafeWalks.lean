import Mathlib.Data.List.TakeWhile
import Pprof.Lib.Asking
import Pprof.StackWords
set_option autoImplicit false

/-! Both unwinders at work in a process: the state of `validate` goes from one call to the
next, and what is not readable kills the process when it is read. -/

namespace Pprof
open ByteMemory Descriptors Memory Runs Visiting

inductive Fault where
  | SIGSEGV
  deriving DecidableEq

/-- What a call of `validate` meets: what other threads did to the descriptors before it, among
it calls of their own, the answers of the OS, and memory, which stays readable from the check
to the reads that follow it. -/
structure Moment where
  aside : List ValidateEvent
  call : Validate
  memory : UInt64 → Option UInt8

def Process.check (capacity : Nat) (s : Process) (at_ : Moment) (addr : UInt64) :
    Bool × Process :=
  ((run (Process.step capacity) s at_.aside).getD s).validate capacity
    { at_.call with access := ⟨addr,at_.memory⟩ }

def deref {T : Type} (loaded : Option T) : Except Fault T :=
  match loaded with
  | some v => .ok v
  | none => .error .SIGSEGV

section FramePointers
variable {S : Type}

/-- The loop of `Trace::trace` along the frame pointers, as `Surroundings.loop` has it, with the
calls of `validate` that it makes. -/
def Process.loop (capacity : Nat) (moments : Nat → Moment) (cb : IpFrame → S → Bool × S) :
    Nat → Nat → Process → UInt64 → UInt64 → S → Option (Except Fault (S × Process))
  | 0, _, _, _, _, _ => none
  | n+1, i, s, frame_pointer, last_frame_pointer, c =>
    if last_frame_pointer ≠ 0 ∧ frame_pointer < last_frame_pointer then some (.ok (c,s))
    else
      match s.check capacity (moments i) frame_pointer with
      | (false,s) => some (.ok (c,s))
      | (true,s) =>
        match deref (read_ptr FramePointerLayout.pointee (moments i).memory frame_pointer) with
        | .error fault => some (.error fault)
        | .ok layout =>
          match cb ⟨layout.ret⟩ c with
          | (false,c) => some (.ok (c,s))
          | (true,c) =>
            match deref (read_ptr FramePointerLayout.pointee (moments i).memory
              frame_pointer) with
            | .error fault => some (.error fault)
            | .ok layout =>
              Process.loop capacity moments cb n (i+1) s layout.frame_pointer frame_pointer c

def Process.trace (capacity : Nat) (moments : Nat → Moment) (cb : IpFrame → S → Bool × S)
    (n : Nat) (s : Process) (ctx : Option SignalContext) (c : S) :
    Option (Except Fault (S × Process)) :=
  match ctx with
  | none => some (.ok (c,s))
  | some ctx => Process.loop capacity moments cb n 0 s ctx.frame_pointer 0 c

end FramePointers

section Framehop
variable {σ S : Type}

structure AskingUnwinder (σ : Type) where
  iter_frames : UInt64 → UnwindRegs → σ
  next : σ → Asking UInt64 (Except Unit UInt64) (Except Unit (Option (UInt64 × σ)))

/-- `read_stack`, as the one of `Framehop` has it. The state counts the calls. -/
def Process.read_stack (capacity : Nat) (moments : Nat → Moment) (s : Nat × Process)
    (addr : UInt64) : Except Fault (Except Unit UInt64 × Nat × Process) :=
  let aligned_addr := addr &&& ~~~7
  match s.2.check capacity (moments s.1) aligned_addr with
  | (false,process) => .ok (.error (),s.1+1,process)
  | (true,process) =>
    match deref (ptr_read usize (moments s.1).memory aligned_addr) with
    | .error fault => .error fault
    | .ok word => .ok (.ok word,s.1+1,process)

def Process.frames (capacity : Nat) (moments : Nat → Moment) (unwinder : AskingUnwinder σ)
    (cb : IpFrame → S → Bool × S) :
    Nat → Nat × Process → σ → S → Option (Except Fault (S × Process))
  | 0, _, _, _ => none
  | n+1, s, iter, c =>
    match (unwinder.next iter).run (Process.read_stack capacity moments) s with
    | .error fault => some (.error fault)
    | .ok (.ok (some (address,iter)),s) =>
      match cb ⟨address⟩ c with
      | (false,c) => some (.ok (c,s.2))
      | (true,c) => Process.frames capacity moments unwinder cb n s iter c
    | .ok (_,s) => some (.ok (c,s.2))

def Process.iter_frames (capacity : Nat) (moments : Nat → Moment)
    (unwinder : Option (AskingUnwinder σ)) (cb : IpFrame → S → Bool × S) (n : Nat) (s : Process)
    (ctx : Option SignalContext) (c : S) : Option (Except Fault (S × Process)) :=
  match unwinder, get_regs_from_context ctx with
  | some unwinder, some (regs,pc) =>
    Process.frames capacity moments unwinder cb n (0,s) (unwinder.iter_frames pc regs) c
  | _, _ => some (.ok (c,s))

end Framehop

section Safety
variable {pipes capacity : Nat}

theorem check_sound (hcap : CHECK_LENGTH ≤ capacity) {s : Process} (h : s.Sound pipes)
    (at_ : Moment) (addr : UInt64) :
    (s.check capacity at_ addr).2.Sound pipes ∧
      ((s.check capacity at_ addr).1 = true →
        addr ≠ 0 ∧ Loadable at_.memory addr CHECK_LENGTH) := by
  have haside : Process.Sound pipes ((run (Process.step capacity) s at_.aside).getD s) := by
    cases hr : run (Process.step capacity) s at_.aside with
    | none => exact h
    | some s' =>
      exact Reachable.invariant (fun s e s' h => sound_step hcap s e s' h) h ⟨at_.aside,hr⟩
  obtain ⟨hvalid,hsound⟩ := haside.validate hcap { at_.call with access := ⟨addr,at_.memory⟩ }
  exact ⟨hsound,fun hv => ⟨(hvalid.mp hv).1,(hvalid.mp hv).2.1⟩⟩

theorem deref_read_ptr {T : Type} {t : Pointee T} {memory : UInt64 → Option UInt8}
    {ptr : UInt64} (h : Loadable memory ptr t.size) :
    ∃ v, deref (read_ptr t memory ptr) = .ok v ∧ read_ptr t memory ptr = some v := by
  obtain ⟨bs,hbs⟩ : ∃ bs, load memory ptr t.size = some bs := ⟨_,load_of_loadable h⟩
  have hv : read_ptr t memory ptr = some (t.ofBytes bs) := by
    rw [read_ptr_eq,hbs]
    rfl
  exact ⟨t.ofBytes bs,by rw [hv]; rfl,hv⟩

theorem read_stack_safe (hcap : CHECK_LENGTH ≤ capacity) (moments : Nat → Moment)
    (s : Nat × Process) (addr : UInt64) (h : s.2.Sound pipes) :
    ∃ answer s', Process.read_stack capacity moments s addr = .ok (answer,s') ∧
      s'.2.Sound pipes := by
  obtain ⟨hsound,hvalid⟩ := check_sound hcap h (moments s.1) (addr &&& ~~~7)
  unfold Process.read_stack
  rcases hc : s.2.check capacity (moments s.1) (addr &&& ~~~7) with ⟨valid,process⟩
  rw [hc] at hsound hvalid
  cases valid with
  | false => exact ⟨.error (),(s.1+1,process),by simp only [hc],hsound⟩
  | true =>
    have hload := (hvalid rfl).2.start (k := 8) (by decide)
    obtain ⟨word,hd,-⟩ := deref_read_ptr (t := usize) hload
    rw [show addr &&& ~~~7 = roundDown addr from rfl,← ptr_read_roundDown] at hd
    exact ⟨.ok word,(s.1+1,process),by
      simp only [hc]
      rw [show addr &&& ~~~7 = roundDown addr from rfl,hd],hsound⟩

section Walking
variable {S : Type} {cb : IpFrame → S → Bool × S}

theorem loop_congr {m m' : Surroundings} (hread : m.read_ptr = m'.read_ptr) {i : Nat}
    (hvalid : ∀ j, i ≤ j → m.validate j = m'.validate j) (n : Nat)
    (frame_pointer last_frame_pointer : UInt64) (c : S) :
    m.loop cb n i frame_pointer last_frame_pointer c =
      m'.loop cb n i frame_pointer last_frame_pointer c := by
  induction n generalizing i frame_pointer last_frame_pointer c with
  | zero => rfl
  | succ n ih =>
    have hi : ∀ j, i+1 ≤ j → m.validate j = m'.validate j := fun j hj => hvalid j (by omega)
    simp only [Surroundings.loop,hread,hvalid i (Nat.le_refl i),ih hi]

def Surroundings.accepting (m : Surroundings) (i : Nat) (frame_pointer : UInt64) : Surroundings :=
  { m with validate := fun j ptr => if j = i then ptr == frame_pointer else m.validate j ptr }

structure Meets (moments : Nat → Moment) (m : Surroundings) : Prop where
  reads : m.read_ptr = fun j ptr =>
    (read_ptr FramePointerLayout.pointee (moments j).memory ptr).getD ⟨0,0⟩
  valid : ∀ j ptr, m.validate j ptr = true →
    ptr ≠ 0 ∧ Loadable (moments j).memory ptr CHECK_LENGTH

/-- The walk of a process is one of the walks by themselves, and what it reads can be read. -/
theorem loop_refines (hcap : CHECK_LENGTH ≤ capacity) (moments : Nat → Moment) {s : Process}
    (h : s.Sound pipes) (n i : Nat) (frame_pointer last_frame_pointer : UInt64) (c : S) :
    ∃ m s', Meets moments m ∧ s'.Sound pipes ∧
      Process.loop capacity moments cb n i s frame_pointer last_frame_pointer c =
        (m.loop cb n i frame_pointer last_frame_pointer c).map fun r => .ok (r.1,s') := by
  have hnone : Meets moments ⟨fun j ptr =>
      (read_ptr FramePointerLayout.pointee (moments j).memory ptr).getD ⟨0,0⟩,fun _ _ => false⟩ :=
    ⟨rfl,by simp⟩
  induction n generalizing i s frame_pointer last_frame_pointer c with
  | zero => exact ⟨_,s,hnone,h,rfl⟩
  | succ n ih =>
    by_cases hlast : last_frame_pointer ≠ 0 ∧ frame_pointer < last_frame_pointer
    · refine ⟨_,s,hnone,h,?_⟩
      simp only [Process.loop,Surroundings.loop,if_pos hlast,Option.map_some]
    · obtain ⟨hsound,hvalid⟩ := check_sound hcap h (moments i) frame_pointer
      rcases hc : s.check capacity (moments i) frame_pointer with ⟨valid,s₁⟩
      rw [hc] at hsound hvalid
      cases valid with
      | false =>
        refine ⟨_,s₁,hnone,hsound,?_⟩
        simp only [Process.loop,Surroundings.loop,if_neg hlast,hc,if_true,Option.map_some]
      | true =>
        obtain ⟨layout,hd,hread⟩ := deref_read_ptr (t := FramePointerLayout.pointee)
          (hvalid rfl).2
        rcases hcb : cb ⟨layout.ret⟩ c with ⟨go,c₁⟩
        obtain ⟨m,s',hm,hs',hloop⟩ := ih hsound (i+1) layout.frame_pointer frame_pointer c₁
        -- The answer of this iteration goes before those of the ones after it.
        have hnow : Meets moments (m.accepting i frame_pointer) := by
          refine ⟨hm.reads,fun j ptr hv => ?_⟩
          by_cases hj : j = i
          · subst hj
            simp only [Surroundings.accepting,if_true,beq_iff_eq] at hv
            subst hv
            exact hvalid rfl
          · simp only [Surroundings.accepting,if_neg hj] at hv
            exact hm.valid j ptr hv
        have hlater : (m.accepting i frame_pointer).loop cb n (i+1) layout.frame_pointer
            frame_pointer c₁ = m.loop cb n (i+1) layout.frame_pointer frame_pointer c₁ := by
          have hsame : (m.accepting i frame_pointer).read_ptr = m.read_ptr := rfl
          refine loop_congr hsame (fun j hj => ?_) n _ _ _
          funext ptr
          simp only [Surroundings.accepting,if_neg (by omega : j ≠ i)]
        have hlayout : (m.accepting i frame_pointer).read_ptr i frame_pointer = layout := by
          rw [hnow.reads]
          simp only [hread,Option.getD_some]
        have hok : ¬ (m.accepting i frame_pointer).validate i frame_pointer = false := by
          simp [Surroundings.accepting]
        cases go with
        | false =>
          refine ⟨_,s₁,hnow,hsound,?_⟩
          simp only [Process.loop,Surroundings.loop,if_neg hlast,hc,hd,hlayout,if_neg hok,hcb,
            Option.map_some]
        | true =>
          refine ⟨_,s',hnow,hs',?_⟩
          simp only [Process.loop,Surroundings.loop,if_neg hlast,hc,hd,hlayout,if_neg hok,hcb,
            hlater,hloop,Option.map_map,Function.comp_def]

end Walking

section Asked
variable {σ S : Type}

def Process.offers (capacity : Nat) (moments : Nat → Moment) (unwinder : AskingUnwinder σ) :
    (Nat × Process) × σ → Option (IpFrame × (Nat × Process) × σ)
  | (s,iter) =>
    match (unwinder.next iter).run (Process.read_stack capacity moments) s with
    | .ok (.ok (some (address,iter)),s) => some (⟨address⟩,s,iter)
    | _ => none

theorem frames_visit (hcap : CHECK_LENGTH ≤ capacity) (moments : Nat → Moment)
    (unwinder : AskingUnwinder σ) (cb : IpFrame → S → Bool × S) (n : Nat) {s : Nat × Process}
    (h : s.2.Sound pipes) (iter : σ) (c : S) :
    ∃ s' : Process, s'.Sound pipes ∧ Process.frames capacity moments unwinder cb n s iter c =
      (visit (Process.offers capacity moments unwinder) cb n (s,iter) c).map fun r =>
        .ok (r.1,s') := by
  induction n generalizing s iter c with
  | zero => exact ⟨s.2,h,rfl⟩
  | succ n ih =>
    obtain ⟨r,s₁,hr,h₁⟩ := Asking.run_ok (I := fun s : Nat × Process => s.2.Sound pipes)
      (fun s addr hs => read_stack_safe hcap moments s addr hs) (unwinder.next iter) h
    rcases r with err | frame
    · refine ⟨s₁.2,h₁,?_⟩
      simp only [Process.frames,visit,Process.offers,hr,Option.map_some]
    · cases frame with
      | none =>
        refine ⟨s₁.2,h₁,?_⟩
        simp only [Process.frames,visit,Process.offers,hr,Option.map_some]
      | some frame =>
        obtain ⟨address,iter'⟩ := frame
        rcases hcb : cb ⟨address⟩ c with ⟨go,c₁⟩
        cases go with
        | false =>
          refine ⟨s₁.2,h₁,?_⟩
          simp only [Process.frames,visit,Process.offers,hr,hcb,Option.map_some]
        | true =>
          obtain ⟨s',hs',hrest⟩ := ih h₁ iter' c₁
          refine ⟨s',hs',?_⟩
          simp only [Process.frames,visit,Process.offers,hr,hcb,hrest,Option.map_map,
            Function.comp_def]

end Asked

theorem trace_refines {S : Type} (hcap : CHECK_LENGTH ≤ capacity) (moments : Nat → Moment)
    (cb : IpFrame → S → Bool × S) (n : Nat) {s : Process} (h : s.Sound pipes)
    (ctx : Option SignalContext) (c : S) :
    ∃ m s', Meets moments m ∧ s'.Sound pipes ∧ Process.trace capacity moments cb n s ctx c =
      (m.trace cb n (ctx.map SignalContext.common) c).map fun r => .ok (r.1,s') := by
  cases ctx with
  | none => exact ⟨⟨_,fun _ _ => false⟩,s,⟨rfl,by simp⟩,h,rfl⟩
  | some ctx => exact loop_refines hcap moments h n 0 ctx.frame_pointer 0 c

theorem iter_frames_visit {σ S : Type} (hcap : CHECK_LENGTH ≤ capacity) (moments : Nat → Moment)
    (unwinder : Option (AskingUnwinder σ)) (cb : IpFrame → S → Bool × S) (n : Nat) {s : Process}
    (h : s.Sound pipes) (ctx : Option SignalContext) (c : S) :
    (∃ s' : Process, s'.Sound pipes ∧
      Process.iter_frames capacity moments unwinder cb n s ctx c = some (.ok (c,s'))) ∨
    ∃ (next : (Nat × Process) × σ → Option (IpFrame × (Nat × Process) × σ))
      (start : (Nat × Process) × σ) (s' : Process), s'.Sound pipes ∧
      Process.iter_frames capacity moments unwinder cb n s ctx c =
        (visit next cb n start c).map fun r => .ok (r.1,s') := by
  unfold Process.iter_frames
  cases unwinder with
  | none => exact .inl ⟨s,h,rfl⟩
  | some unwinder =>
    cases hregs : get_regs_from_context ctx with
    | none => exact .inl ⟨s,h,rfl⟩
    | some start =>
      obtain ⟨regs,pc⟩ := start
      obtain ⟨s',hs',hframes⟩ := frames_visit hcap moments unwinder cb n (s := (0,s)) h
        (unwinder.iter_frames pc regs) c
      exact .inr ⟨_,_,s',hs',hframes⟩

structure Process.Settled (pipes : Nat) (s : Process) : Prop where
  piped : s.table.Piped pipes s.MEM_VALIDATE_PIPE.read_fd s.MEM_VALIDATE_PIPE.write_fd
  made : s.table.pipes = pipes+1
  held : (s.table.bytes pipes).length ≤ CHECK_LENGTH

theorem Process.Sound.settled {s : Process} (h : s.Sound pipes) (ho : s.Opened) :
    s.Settled pipes := by
  cases h with
  | unopened h =>
    obtain ⟨p,hr,-⟩ := ho
    have hnone := h.negative (-1) (by decide)
    rw [h.pipe] at hr
    exact absurd (hr.symm.trans hnone) (by simp)
  | opened piped pipes held => exact ⟨piped,pipes,held⟩

theorem validate_settles (hcap : CHECK_LENGTH ≤ capacity) {s : Process} (h : s.Sound pipes)
    {c : Validate} (h0 : c.access.addr ≠ 0) (ho : s.Opened ∨ s.CanOpen c) :
    (s.validate capacity c).2.Settled pipes := by
  rcases h.ready c with ⟨s',hs,-,hempty,hmade,hpiped⟩ | ⟨err,-,hno⟩
  · simp only [Process.validate,if_neg h0,hs]
    by_cases hr : c.access.Readable
    · obtain ⟨bytes,hb,hlen⟩ := Access.slice_of_readable hr
      have hpos : 0 < bytes.length := by
        rw [hlen]
        exact check_length_pos
      have hroom : (s'.table.bytes pipes).length+bytes.length ≤ capacity := by
        simpa [hempty,hlen] using hcap
      rw [hb,valid_write_piped hpiped hpos hroom]
      exact ⟨⟨hpiped.reader,hpiped.writer⟩,hmade,by simp [hempty,hlen]⟩
    · rw [Access.slice_of_not_readable hr,valid_write_unreadable hpiped]
      exact ⟨⟨hpiped.reader,hpiped.writer⟩,hmade,by simp [hempty]⟩
  · exact absurd ho hno

theorem settled_validate (hcap : CHECK_LENGTH ≤ capacity) {s : Process} (h : s.Settled pipes)
    (c : Validate) :
    ((s.validate capacity c).1 = true ↔ c.access.addr ≠ 0 ∧ c.access.Readable) ∧
      (s.validate capacity c).2.Settled pipes := by
  have hopened : s.Opened := ⟨pipes,h.piped⟩
  have hsound : s.Sound pipes := .opened h.piped h.made h.held
  refine ⟨by simpa [hopened] using (hsound.validate hcap c).1,?_⟩
  by_cases h0 : c.access.addr = 0
  · rw [Process.validate,if_pos h0]
    exact h
  · exact validate_settles hcap hsound h0 (.inl hopened)

theorem settled_step (hcap : CHECK_LENGTH ≤ capacity) (s : Process) (e : ValidateEvent)
    (s' : Process) (h : s.Settled pipes) (hs : s.step capacity e = some s') :
    s'.Settled pipes := by
  have hforeign : ∀ {table : Table}, s.table.Foreign table →
      Process.Settled pipes { s with table := table } := fun hf =>
    ⟨hf.toKeeps.piped h.piped,hf.pipes.trans h.made,by rw [hf.bytes]; exact h.held⟩
  cases e with
  | call c =>
    cases hs
    exact (settled_validate hcap h c).2
  | open_other fd =>
    obtain ⟨table,ht,rfl⟩ := Option.map_eq_some_iff.mp hs
    exact hforeign (Table.open_other_foreign ht)
  | close_other fd =>
    obtain ⟨table,ht,rfl⟩ := Option.map_eq_some_iff.mp hs
    exact hforeign (Table.close_other_foreign ht)

theorem settled_check (hcap : CHECK_LENGTH ≤ capacity) {s : Process} (h : s.Settled pipes)
    (at_ : Moment) (addr : UInt64) :
    ((s.check capacity at_ addr).1 = true ↔
      addr ≠ 0 ∧ Loadable at_.memory addr CHECK_LENGTH) ∧
      (s.check capacity at_ addr).2.Settled pipes := by
  have haside : Process.Settled pipes ((run (Process.step capacity) s at_.aside).getD s) := by
    cases hr : run (Process.step capacity) s at_.aside with
    | none => exact h
    | some s' =>
      exact Reachable.invariant (fun s e s' h => settled_step hcap s e s' h) h ⟨at_.aside,hr⟩
  exact settled_validate hcap haside _

def AskingUnwinder.native {σ : Type} (unwinder : AskingUnwinder σ) :
    UnwinderNative (σ × (UInt64 → Except Unit UInt64)) where
  iter_frames pc regs read_stack := (unwinder.iter_frames pc regs,read_stack)
  next
    | (iter,read_stack) =>
      match (unwinder.next iter).eval read_stack with
      | .ok (some (address,iter)) => .ok (some (address,iter,read_stack))
      | .ok none => .ok none
      | .error err => .error err

/-- The calls of a walk answer as they should while an invariant holds, which may depend on
how many there have been. -/
structure Answers (capacity : Nat) (moments : Nat → Moment) (I : Nat → Process → Prop) :
    Prop where
  valid : ∀ i s addr, I i s → ((s.check capacity (moments i) addr).1 = true ↔
    addr ≠ 0 ∧ Loadable (moments i).memory addr CHECK_LENGTH)
  kept : ∀ i s addr, I i s → I (i+1) (s.check capacity (moments i) addr).2

theorem settled_answers (hcap : CHECK_LENGTH ≤ capacity) (moments : Nat → Moment) :
    Answers capacity moments fun _ s => s.Settled pipes where
  valid i _ addr h := (settled_check hcap h (moments i) addr).1
  kept i _ addr h := (settled_check hcap h (moments i) addr).2

def bareStack (memory : UInt64 → Option UInt8) : StackMemory where
  validate addr := decide (addr ≠ 0 ∧ Loadable memory addr CHECK_LENGTH)
  read addr := (ptr_read usize memory addr).getD 0

theorem stack_settled (hcap : CHECK_LENGTH ≤ capacity) {s : Process} (h : s.Settled pipes)
    (c : Validate) (memory : UInt64 → Option UInt8) :
    s.stack capacity c memory = bareStack memory := by
  have hvalid : (s.stack capacity c memory).validate = (bareStack memory).validate := by
    funext addr
    rw [Bool.eq_iff_iff]
    exact (settled_validate hcap h _).1.trans decide_eq_true_iff.symm
  exact congrArg (StackMemory.mk · fun addr => (ptr_read usize memory addr).getD 0) hvalid

section Fixed
variable {memory : UInt64 → Option UInt8} {moments : Nat → Moment} {I : Nat → Process → Prop}

theorem read_stack_fixed (ha : Answers capacity moments I)
    (hfixed : ∀ i, (moments i).memory = memory) (s : Nat × Process) (addr : UInt64)
    (h : I s.1 s.2) :
    ∃ s', Process.read_stack capacity moments s addr =
      .ok (read_stack (bareStack memory) addr,s') ∧ I s'.1 s'.2 := by
  have hvalid := ha.valid s.1 s.2 (roundDown addr) h
  have hkept := ha.kept s.1 s.2 (roundDown addr) h
  rw [hfixed] at hvalid
  rcases hc : s.2.check capacity (moments s.1) (roundDown addr) with ⟨valid,process⟩
  rw [hc] at hvalid hkept
  have hsame : (bareStack memory).validate (roundDown addr) = valid := by
    rw [Bool.eq_iff_iff]
    exact decide_eq_true_iff.trans hvalid.symm
  have hround : addr &&& ~~~7 = roundDown addr := rfl
  simp only [Process.read_stack,Pprof.read_stack,hround,hc,hsame,hfixed]
  cases valid with
  | false => exact ⟨(s.1+1,process),rfl,hkept⟩
  | true =>
    have hload := (hvalid.mp rfl).2.start (k := 8) (by decide)
    obtain ⟨word,-,hread⟩ := deref_read_ptr (t := usize) hload
    rw [← ptr_read_roundDown] at hread
    refine ⟨(s.1+1,process),?_,hkept⟩
    simp only [deref,bareStack,hread,Option.getD_some,if_true]

theorem frames_fixed {σ S : Type} (ha : Answers capacity moments I)
    (hfixed : ∀ i, (moments i).memory = memory) (unwinder : AskingUnwinder σ)
    (cb : IpFrame → S → Bool × S) (n : Nat) {s : Nat × Process} (h : I s.1 s.2)
    (iter : σ) (c : S) :
    ∃ i s', I i s' ∧ Process.frames capacity moments unwinder cb n s iter c =
      (visit unwinder.native.frame cb n (iter,read_stack (bareStack memory)) c).map
        fun r => .ok (r.1,s') := by
  induction n generalizing s iter c with
  | zero => exact ⟨s.1,s.2,h,rfl⟩
  | succ n ih =>
    obtain ⟨s₁,hr,h₁⟩ := Asking.run_eval (I := fun s : Nat × Process => I s.1 s.2)
      (fun s addr hs => read_stack_fixed ha hfixed s addr hs)
      (unwinder.next iter) h
    rcases he : (unwinder.next iter).eval (read_stack (bareStack memory)) with
      err | - | ⟨address,iter'⟩
    · refine ⟨s₁.1,s₁.2,h₁,?_⟩
      simp only [Process.frames,visit,UnwinderNative.frame,AskingUnwinder.native,hr,he,
        Option.map_some]
    · refine ⟨s₁.1,s₁.2,h₁,?_⟩
      simp only [Process.frames,visit,UnwinderNative.frame,AskingUnwinder.native,hr,he,
        Option.map_some]
    · rcases hcb : cb ⟨address⟩ c with ⟨go,c₁⟩
      cases go with
      | false =>
        refine ⟨s₁.1,s₁.2,h₁,?_⟩
        simp only [Process.frames,visit,UnwinderNative.frame,AskingUnwinder.native,hr,he,hcb,
          Option.map_some]
      | true =>
        obtain ⟨i,s',hs',hrest⟩ := ih h₁ iter' c₁
        refine ⟨i,s',hs',?_⟩
        simp only [AskingUnwinder.native] at hrest
        simp only [Process.frames,visit,UnwinderNative.frame,AskingUnwinder.native,hr,he,hcb,
          hrest,Option.map_map,Function.comp_def]

theorem iter_frames_fixed {σ S : Type} (ha : Answers capacity moments I)
    (hfixed : ∀ i, (moments i).memory = memory) (unwinder : AskingUnwinder σ)
    (cb : IpFrame → S → Bool × S) (n : Nat) {s : Process} (h : I 0 s)
    (ctx : Option SignalContext) (c : S) :
    ∃ i s', I i s' ∧ Process.iter_frames capacity moments (some unwinder) cb n s ctx c =
      (FramehopUnwinder.iter_frames unwinder.native (bareStack memory) ctx cb n c).map
        fun r => .ok (r.1,s') := by
  unfold Process.iter_frames FramehopUnwinder.iter_frames
  cases hregs : get_regs_from_context ctx with
  | none => exact ⟨0,s,h,rfl⟩
  | some start =>
    obtain ⟨regs,pc⟩ := start
    exact frames_fixed ha hfixed unwinder cb n (s := (0,s)) h (unwinder.iter_frames pc regs) c

/-- Over a stack that stays as it is, framehop finds in a process what it finds over the stack
alone, in whatever order it reads and whatever happens to the descriptors meanwhile. -/
theorem framehop_refines (c₀ : Validate) {σ S : Type} (hcap : CHECK_LENGTH ≤ capacity)
    {s₀ s : Process} (h₀ : s₀.Unopened) {es : List ValidateEvent}
    (hrun : run (Process.step capacity) s₀ es = some s) (hopened : s.Opened)
    (hfixed : ∀ i, (moments i).memory = memory) (unwinder : AskingUnwinder σ)
    (cb : IpFrame → S → Bool × S) (n : Nat) (ctx : Option SignalContext) (c : S) :
    ∃ s' : Process, s'.Opened ∧
      Process.iter_frames capacity moments (some unwinder) cb n s ctx c =
        (FramehopUnwinder.iter_frames unwinder.native (s.stack capacity c₀ memory) ctx cb n c).map
          fun r => .ok (r.1,s') := by
  have hs : s.Sound s₀.table.pipes := Reachable.invariant
    (fun s e s' h => sound_step hcap s e s' h) (.unopened h₀ rfl) ⟨es,hrun⟩
  have hsettled := hs.settled hopened
  rw [stack_settled hcap hsettled c₀ memory]
  obtain ⟨-,s',hs',hframes⟩ := iter_frames_fixed (settled_answers hcap moments) hfixed unwinder cb
    n hsettled ctx c
  exact ⟨s',⟨_,hs'.piped⟩,hframes⟩

end Fixed

end Safety

section Handler
variable [Layout (Entry (UnresolvedFrames IpFrame))] [Target] [Symbolizer]

theorem capture_length (p : Profiler IpFrame) (frames : List IpFrame) :
    (p.capture 0 frames).length ≤ MAX_DEPTH := by
  rw [capture_eq,List.length_take]
  omega

theorem capture_idem (p : Profiler IpFrame) (frames : List IpFrame) :
    p.capture 0 (p.capture 0 frames) = p.capture 0 frames := by
  have hadmits : ∀ frame ∈ p.capture 0 frames, p.admits frame = true := by
    intro frame hf
    rw [capture_eq] at hf
    exact List.mem_takeWhile_imp (List.mem_of_mem_take hf)
  have hall : (p.capture 0 frames).takeWhile p.admits = p.capture 0 frames :=
    List.takeWhile_eq_self_iff.mpr hadmits
  rw [capture_eq p (p.capture 0 frames),hall]
  exact List.take_of_length_le (capture_length p frames)

theorem visit_offered {τ : Type} (p : Profiler IpFrame) (next : τ → Option (IpFrame × τ))
    (start : τ) {n : Nat} (hn : MAX_DEPTH < n) :
    ∃ bt calls, visit next p.callback n start ([],0) = some ((bt,bt.length),calls) ∧
      bt = p.capture 0 (offered next n start) := by
  obtain ⟨bt,calls,hv,-,hcapture⟩ := visit_callback p next start
  obtain ⟨k,rfl⟩ := Nat.exists_eq_add_of_le (Nat.succ_le_of_lt hn)
  exact ⟨bt,calls,visit_mono (Nat.le_add_right _ k) hv,(hcapture k).symm⟩

theorem visit_captures {τ : Type} (p : Profiler IpFrame) (next : τ → Option (IpFrame × τ))
    (start : τ) {n : Nat} (hn : MAX_DEPTH < n) :
    ∃ bt calls, visit next p.callback n start ([],0) = some ((bt,bt.length),calls) ∧
      p.capture 0 bt = bt := by
  obtain ⟨bt,calls,hv,rfl⟩ := visit_offered p next start hn
  exact ⟨_,calls,hv,capture_idem p _⟩

section Captures
variable {pipes capacity : Nat} (hcap : CHECK_LENGTH ≤ capacity) (moments : Nat → Moment)
  {s : Process} (h : s.Sound pipes) (ctx : Option SignalContext) (p : Profiler IpFrame) {n : Nat}
  (hn : MAX_DEPTH < n)
include hcap h hn

theorem trace_captures :
    ∃ bt m walk s', Process.trace capacity moments p.callback n s ctx ([],0) =
        some (.ok ((bt,bt.length),s')) ∧ p.capture 0 bt = bt ∧ s'.Sound pipes ∧
        Meets moments m ∧
        m.trace p.callback n (ctx.map SignalContext.common) ([],0) =
          some ((bt,bt.length),walk) := by
  obtain ⟨m,s',hm,hs',htrace⟩ := trace_refines hcap moments p.callback n h ctx
    (([],0) : List IpFrame × Nat)
  obtain ⟨bt,walk,hbt,hcapture⟩ : ∃ bt walk, m.trace p.callback n
      (ctx.map SignalContext.common) ([],0) = some ((bt,bt.length),walk) ∧
      p.capture 0 bt = bt := by
    cases ctx with
    | none => exact ⟨[],[],rfl,rfl⟩
    | some ctx =>
      obtain ⟨bt,calls,hv,hcapture⟩ := visit_captures p m.next (0,ctx.frame_pointer,0) hn
      have hloop : (m.loop p.callback n 0 ctx.frame_pointer 0 ([],0)).map Prod.fst =
          some (bt,bt.length) := by
        rw [loop_visit,hv]
        rfl
      obtain ⟨r,hr,hrbt⟩ := Option.map_eq_some_iff.mp hloop
      refine ⟨bt,r.2,?_,hcapture⟩
      rw [← hrbt]
      exact hr
  rw [hbt] at htrace
  exact ⟨bt,m,walk,s',htrace,hcapture,hs',hm,hbt⟩

theorem iter_frames_captures {σ : Type} (unwinder : Option (AskingUnwinder σ)) :
    ∃ bt s', Process.iter_frames capacity moments unwinder p.callback n s ctx ([],0) =
      some (.ok ((bt,bt.length),s')) ∧ p.capture 0 bt = bt ∧ s'.Sound pipes := by
  rcases iter_frames_visit hcap moments unwinder p.callback n h ctx
    (([],0) : List IpFrame × Nat) with ⟨s',hs',hframes⟩ | ⟨next,start,s',hs',hframes⟩
  · exact ⟨[],s',hframes,rfl,hs'⟩
  · obtain ⟨bt,calls,hv,hcapture⟩ := visit_captures p next start hn
    rw [hv] at hframes
    exact ⟨bt,s',hframes,hcapture,hs'⟩

end Captures

theorem length_of_captured {p : Profiler IpFrame} {bt : List IpFrame}
    (h : p.capture 0 bt = bt) : bt.length ≤ MAX_DEPTH := h ▸ capture_length p bt

/-- Whatever the stack holds and whatever other threads do to the descriptors: neither unwinder
reads what cannot be read, for any callback and as long as it goes on, and with the callback of
the handler both come to an end. -/
theorem walks_never_fault {capacity : Nat} (hcap : CHECK_LENGTH ≤ capacity) {s₀ s : Process}
    (h₀ : s₀.Unopened) {es : List ValidateEvent}
    (hrun : run (Process.step capacity) s₀ es = some s) (moments : Nat → Moment)
    (ctx : Option SignalContext) {σ : Type} (unwinder : Option (AskingUnwinder σ)) :
    (∀ (S : Type) (cb : IpFrame → S → Bool × S) (n : Nat) (c : S) (fault : Fault),
      Process.trace capacity moments cb n s ctx c ≠ some (.error fault) ∧
      Process.iter_frames capacity moments unwinder cb n s ctx c ≠ some (.error fault)) ∧
    ∀ p : Profiler IpFrame,
      (∃ bt m walk s', Process.trace capacity moments p.callback (MAX_DEPTH+1) s ctx ([],0) =
          some (.ok ((bt,bt.length),s')) ∧ bt.length ≤ MAX_DEPTH ∧
          s'.Sound s₀.table.pipes ∧ Meets moments m ∧
          m.trace p.callback (MAX_DEPTH+1) (ctx.map SignalContext.common) ([],0) =
            some ((bt,bt.length),walk)) ∧
      ∃ bt s', Process.iter_frames capacity moments unwinder p.callback (MAX_DEPTH+1) s ctx
          ([],0) = some (.ok ((bt,bt.length),s')) ∧ bt.length ≤ MAX_DEPTH ∧
          s'.Sound s₀.table.pipes := by
  have hs : s.Sound s₀.table.pipes := Reachable.invariant
    (fun s e s' h => sound_step hcap s e s' h) (.unopened h₀ rfl) ⟨es,hrun⟩
  refine ⟨fun S cb n c fault => ⟨?_,?_⟩,fun p => ⟨?_,?_⟩⟩
  · obtain ⟨m,s',-,-,htrace⟩ := trace_refines hcap moments cb n hs ctx c
    rw [htrace]
    cases m.trace cb n (ctx.map SignalContext.common) c <;> simp
  · rcases iter_frames_visit hcap moments unwinder cb n hs ctx c with
      ⟨s',-,hframes⟩ | ⟨next,start,s',-,hframes⟩
    · simp [hframes]
    · rw [hframes]
      cases visit next cb n start c <;> simp
  · obtain ⟨bt,m,walk,s',htrace,hcapture,hs',hm,hbt⟩ :=
      trace_captures hcap moments hs ctx p (Nat.lt_succ_self MAX_DEPTH)
    exact ⟨bt,m,walk,s',htrace,length_of_captured hcapture,hs',hm,hbt⟩
  · obtain ⟨bt,s',hframes,hcapture,hs'⟩ :=
      iter_frames_captures hcap moments hs ctx p (Nat.lt_succ_self MAX_DEPTH) unwinder
    exact ⟨bt,s',hframes,length_of_captured hcapture,hs'⟩

end Handler

def askingChained : AskingUnwinder (Option UInt64 × UInt64) where
  iter_frames pc regs := (some pc,regs.frame_pointer)
  next
    | (some pc,fp) => .done (.ok (some (pc,none,fp)))
    | (none,fp) => .ask (fp+8) fun address =>
      match address with
      | .error err => .done (.error err)
      | .ok address => .ask fp fun frame_pointer =>
        match frame_pointer with
        | .error err => .done (.error err)
        | .ok frame_pointer => .done (.ok (some (address,none,frame_pointer)))

def interruptedAt (pc frame_pointer : UInt64) : SignalContext :=
  .x86_64_linux fun reg => if reg = REG_RIP then pc.toInt64
    else if reg = REG_RBP then frame_pointer.toInt64 else 0

def busyMoments (_ : Nat) : Moment := ⟨[.open_other 9,.close_other 9],.interrupted,ramp⟩

theorem walks_never_fault_busy :
    letI := plainTarget
    letI : Symbolizer := ⟨id,fun _ => []⟩
    letI : Layout (Entry (UnresolvedFrames IpFrame)) := indexedLayout _ 1096 (Nat.succ_pos 1095)
    ∃ (p : Profiler IpFrame) (bt : List IpFrame) (s' : Process), Profiler.new false = .ok p ∧
      Process.trace 65536 busyMoments p.callback (MAX_DEPTH+1) Process.started
        (some (interruptedAt 1000 4097)) ([],0) = some (.ok ((bt,bt.length),s')) ∧
      bt.length ≤ MAX_DEPTH ∧ s'.Sound 0 := by
  let _ := plainTarget
  let _ : Symbolizer := ⟨id,fun _ => []⟩
  let _ : Layout (Entry (UnresolvedFrames IpFrame)) := indexedLayout _ 1096 (Nat.succ_pos 1095)
  obtain ⟨p,hp⟩ := profiler_new (F := IpFrame)
  have hrun : run (Process.step 65536) Process.started [] = some Process.started := rfl
  obtain ⟨-,hends⟩ := walks_never_fault (by decide) Process.started_unopened hrun busyMoments
    (some (interruptedAt 1000 4097)) (some askingChained)
  obtain ⟨⟨bt,m,walk,s',htrace,hlen,hs',-⟩,-⟩ := hends p
  exact ⟨p,bt,s',hp,htrace,hlen,hs'⟩

theorem framehop_refines_busy :
    ∃ (s s' : Process), run (Process.step 65536) Process.started [.call .interrupted] = some s ∧
      Process.iter_frames 65536 busyMoments (some askingChained) accept 2 s
        (some (interruptedAt 1000 4096)) [] =
      (FramehopUnwinder.iter_frames askingChained.native (s.stack 65536 .interrupted ramp)
        (some (interruptedAt 1000 4096)) accept 2 []).map fun r => .ok (r.1,s') := by
  obtain ⟨s,hrun⟩ : ∃ s, run (Process.step 65536) Process.started [.call .interrupted] = some s :=
    ⟨_,rfl⟩
  have hopened : s.Opened := by
    cases hrun
    exact ⟨0,rfl,rfl⟩
  have hfixed : ∀ i, (busyMoments i).memory = ramp := fun _ => rfl
  obtain ⟨s',-,hframes⟩ := framehop_refines .interrupted (by decide) Process.started_unopened hrun
    hopened hfixed askingChained accept 2 (some (interruptedAt 1000 4096)) []
  exact ⟨s,s',hrun,hframes⟩

end Pprof
