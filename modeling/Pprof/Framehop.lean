import Pprof.Capture
set_option autoImplicit false

/-! `backtrace/framehop_unwinder.rs`, and the signal contexts of its targets, which the handler,
the walk along the frame pointers and this unwinder each take apart for themselves. -/

namespace Pprof
open Memory Visiting

def REG_RBP : Fin 23 := 10
def REG_RSP : Fin 23 := 15
def REG_RIP : Fin 23 := 16

structure X86ThreadState where
  rip : UInt64
  rsp : UInt64
  rbp : UInt64

structure ArmThreadState where
  lr : UInt64
  sp : UInt64
  fp : UInt64
  pc : UInt64

structure ArmMcontext where
  regs : Fin 31 → UInt64
  sp : UInt64
  pc : UInt64

/-- `ucontext_t` on each of the targets. On macOS `uc_mcontext` is a pointer, which can be
null, to a structure with the thread state in it. -/
inductive SignalContext where
  | x86_64_linux (gregs : Fin 23 → Int64)
  | x86_64_macos (uc_mcontext : Option X86ThreadState)
  | aarch64_linux (uc_mcontext : ArmMcontext)
  | aarch64_macos (uc_mcontext : Option ArmThreadState)

def SignalContext.addr : SignalContext → UInt64
  | .x86_64_linux gregs => (gregs REG_RIP).toUInt64
  | .x86_64_macos none => 0
  | .x86_64_macos (some ss) => ss.rip
  | .aarch64_linux mcontext => mcontext.pc
  | .aarch64_macos none => 0
  | .aarch64_macos (some ss) => ss.pc

def SignalContext.frame_pointer : SignalContext → UInt64
  | .x86_64_linux gregs => (gregs REG_RBP).toUInt64
  | .x86_64_macos none => 0
  | .x86_64_macos (some ss) => ss.rbp
  | .aarch64_linux mcontext => mcontext.regs 29
  | .aarch64_macos none => 0
  | .aarch64_macos (some ss) => ss.fp

def SignalContext.common (ctx : SignalContext) : UContext := ⟨ctx.addr,ctx.frame_pointer⟩

inductive UnwindRegs where
  | x86_64 (ip sp bp : UInt64)
  | aarch64 (lr sp fp : UInt64)
  deriving DecidableEq

def UnwindRegs.frame_pointer : UnwindRegs → UInt64
  | .x86_64 _ _ bp => bp
  | .aarch64 _ _ fp => fp

def get_regs_from_context : Option SignalContext → Option (UnwindRegs × UInt64)
  | none => none
  | some (.aarch64_macos none) => none
  | some (.aarch64_macos (some ss)) => some (.aarch64 ss.lr ss.sp ss.fp,ss.pc)
  | some (.x86_64_macos none) => none
  | some (.x86_64_macos (some ss)) => some (.x86_64 ss.rip ss.rsp ss.rbp,ss.rip)
  -- The link register is passed twice, and `pc` of the context is not read.
  | some (.aarch64_linux mcontext) =>
    some (.aarch64 (mcontext.regs 30) mcontext.sp (mcontext.regs 29),mcontext.regs 30)
  | some (.x86_64_linux gregs) =>
    some (.x86_64 (gregs REG_RIP).toUInt64 (gregs REG_RSP).toUInt64 (gregs REG_RBP).toUInt64,
      (gregs REG_RIP).toUInt64)

structure StackMemory where
  validate : UInt64 → Bool
  read : UInt64 → UInt64

def read_stack (m : StackMemory) (addr : UInt64) : Except Unit UInt64 :=
  let aligned_addr := addr &&& ~~~7
  if m.validate aligned_addr then .ok (m.read aligned_addr) else .error ()

/-- The unwinder of the framehop crate, with its modules and its cache. `next` reports the
address of a frame. -/
structure UnwinderNative (σ : Type) where
  iter_frames : UInt64 → UnwindRegs → (UInt64 → Except Unit UInt64) → σ
  next : σ → Except Unit (Option (UInt64 × σ))

def UnwinderNative.StartsAtPc {σ : Type} (unwinder : UnwinderNative σ) : Prop :=
  ∀ pc regs read_stack, ∃ s,
    unwinder.next (unwinder.iter_frames pc regs read_stack) = .ok (some (pc,s))

def UnwinderNative.frame {σ : Type} (unwinder : UnwinderNative σ) (s : σ) :
    Option (IpFrame × σ) :=
  match unwinder.next s with
  | .ok (some (address,s)) => some (⟨address⟩,s)
  | _ => none

namespace FramehopUnwinder
variable {σ S : Type}

def iter_frames (unwinder : UnwinderNative σ) (m : StackMemory) (ctx : Option SignalContext)
    (cb : IpFrame → S → Bool × S) (n : Nat) (c : S) : Option (S × Nat) :=
  match get_regs_from_context ctx with
  | none => some (c,0)
  | some (regs,pc) =>
    visit unwinder.frame cb n (unwinder.iter_frames pc regs (read_stack m)) c

/-- There is no unwinder while someone else has the lock. -/
def trace (unwinder : Option (UnwinderNative σ)) (m : StackMemory) (ctx : Option SignalContext)
    (cb : IpFrame → S → Bool × S) (n : Nat) (c : S) : Option (S × Nat) :=
  match unwinder with
  | none => some (c,0)
  | some unwinder => iter_frames unwinder m ctx cb n c

end FramehopUnwinder

theorem frame_pointer_agrees {S : Type} {ctx : SignalContext} {regs : UnwindRegs} {pc : UInt64}
    (h : get_regs_from_context (some ctx) = some (regs,pc)) (m : Surroundings)
    (cb : IpFrame → S → Bool × S) (n : Nat) (c : S) :
    m.trace cb n (some ctx.common) c = m.loop cb n 0 regs.frame_pointer 0 c := by
  have hfp : regs.frame_pointer = ctx.frame_pointer := by
    cases ctx with
    | x86_64_linux gregs =>
      cases h
      rfl
    | x86_64_macos mcontext =>
      cases mcontext <;> cases h
      rfl
    | aarch64_linux mcontext =>
      cases h
      rfl
    | aarch64_macos mcontext =>
      cases mcontext <;> cases h
      rfl
  rw [hfp]
  rfl

/-- On aarch64 with Linux the thread is where the last call returned to. -/
def SignalContext.LinkIsPc : SignalContext → Prop
  | .aarch64_linux mcontext => mcontext.regs 30 = mcontext.pc
  | _ => True

theorem regs_pc_iff (ctx : SignalContext) :
    (∀ regs pc, get_regs_from_context (some ctx) = some (regs,pc) → pc = ctx.addr) ↔
      ctx.LinkIsPc := by
  cases ctx with
  | x86_64_linux gregs => simp [get_regs_from_context,SignalContext.addr,SignalContext.LinkIsPc]
  | x86_64_macos mcontext =>
    cases mcontext <;>
      simp [get_regs_from_context,SignalContext.addr,SignalContext.LinkIsPc]
  | aarch64_linux mcontext =>
    simp [get_regs_from_context,SignalContext.addr,SignalContext.LinkIsPc]
  | aarch64_macos mcontext =>
    cases mcontext <;>
      simp [get_regs_from_context,SignalContext.addr,SignalContext.LinkIsPc]

section Leaf
variable {σ : Type} [Layout (Entry (UnresolvedFrames IpFrame))] [Target] [Symbolizer]

theorem capture_head (p : Profiler IpFrame) (frame : IpFrame) (frames : List IpFrame) :
    ∀ leaf ∈ (p.capture 0 (frame :: frames)).head?, leaf = frame := by
  intro leaf h
  rw [Profiler.capture] at h
  split at h
  · cases h
  · split at h
    · cases h
      rfl
    · cases h

theorem trace_leaf {unwinder : UnwinderNative σ} (h : unwinder.StartsAtPc)
    {ctx : SignalContext} (hpc : ∀ regs pc,
      get_regs_from_context (some ctx) = some (regs,pc) → pc = ctx.addr)
    (m : StackMemory) (p : Profiler IpFrame) : ∃ bt calls,
      FramehopUnwinder.trace (some unwinder) m (some ctx) p.callback (MAX_DEPTH+1) ([],0) =
        some ((bt,bt.length),calls) ∧ ∀ leaf ∈ bt.head?, ip leaf = ctx.addr := by
  rw [FramehopUnwinder.trace,FramehopUnwinder.iter_frames]
  cases hregs : get_regs_from_context (some ctx) with
  | none => exact ⟨[],0,rfl,nofun⟩
  | some start =>
    obtain ⟨regs,pc⟩ := start
    obtain ⟨bt,calls,hv,-,hcapture⟩ :=
      visit_callback p unwinder.frame (unwinder.iter_frames pc regs (read_stack m))
    refine ⟨bt,calls,hv,fun leaf hleaf => ?_⟩
    obtain ⟨s,hs⟩ := h pc regs (read_stack m)
    have hfirst : unwinder.frame (unwinder.iter_frames pc regs (read_stack m)) =
        some (⟨pc⟩,s) := by rw [UnwinderNative.frame,hs]
    have hbt := hcapture 0
    rw [Nat.add_zero,offered,hfirst] at hbt
    rw [← hbt] at hleaf
    rw [capture_head p _ _ leaf hleaf,← hpc regs pc hregs]
    rfl

/-- Framehop begins at the interrupted instruction, which is then the leaf of what the handler
records, just if the link register is not taken for another program counter. -/
theorem starts_at_interrupted_iff {unwinder : UnwinderNative σ} (h : unwinder.StartsAtPc)
    (ctx : SignalContext) :
    ((∀ regs pc, get_regs_from_context (some ctx) = some (regs,pc) → pc = ctx.addr) ∧
      ∀ (m : StackMemory) (p : Profiler IpFrame), ∃ bt calls,
        FramehopUnwinder.trace (some unwinder) m (some ctx) p.callback (MAX_DEPTH+1) ([],0) =
          some ((bt,bt.length),calls) ∧ ∀ leaf ∈ bt.head?, ip leaf = ctx.addr) ↔
      ctx.LinkIsPc := by
  rw [← regs_pc_iff]
  exact ⟨fun hboth => hboth.1,fun hpc => ⟨hpc,trace_leaf h hpc⟩⟩

end Leaf

def chained : UnwinderNative (Option UInt64 × UInt64 × (UInt64 → Except Unit UInt64)) where
  iter_frames pc regs read_stack := (some pc,regs.frame_pointer,read_stack)
  next
    | (some pc,fp,read_stack) => .ok (some (pc,none,fp,read_stack))
    | (none,fp,read_stack) => do
      let address ← read_stack (fp+8)
      let fp ← read_stack fp
      pure (some (address,none,fp,read_stack))

theorem chained_starts : chained.StartsAtPc := fun _ _ _ => ⟨_,rfl⟩

def unreadable : StackMemory := ⟨fun _ => false,fun _ => 0⟩

def linked (lr pc : UInt64) : SignalContext :=
  .aarch64_linux ⟨fun i => if i = 30 then lr else 0,0,pc⟩

theorem starts_at_interrupted_iff_linked :
    letI := plainTarget
    letI : Symbolizer := ⟨id,fun _ => []⟩
    letI : Layout (Entry (UnresolvedFrames IpFrame)) := indexedLayout _ 1096 (Nat.succ_pos 1095)
    ∃ p : Profiler IpFrame, Profiler.new false = .ok p ∧ ∃ bt calls,
      FramehopUnwinder.trace (some chained) unreadable (some (linked 1000 1000)) p.callback
        (MAX_DEPTH+1) ([],0) = some ((bt,bt.length),calls) ∧
          ∀ leaf ∈ bt.head?, ip leaf = 1000 := by
  let _ := plainTarget
  let _ : Symbolizer := ⟨id,fun _ => []⟩
  let _ : Layout (Entry (UnresolvedFrames IpFrame)) := indexedLayout _ 1096 (Nat.succ_pos 1095)
  obtain ⟨p,hp⟩ := profiler_new (F := IpFrame)
  have hlink : (linked 1000 1000).LinkIsPc := rfl
  obtain ⟨-,hleaf⟩ := (starts_at_interrupted_iff chained_starts (linked 1000 1000)).mpr hlink
  exact ⟨p,hp,hleaf unreadable p⟩

/-- Interrupted at 1000, with 2000 in the link register: framehop is told 2000, which becomes
the leaf. -/
theorem link_taken_for_pc : (linked 2000 1000).addr = 1000 ∧
    get_regs_from_context (some (linked 2000 1000)) = some (.aarch64 2000 0 0,2000) ∧
    FramehopUnwinder.trace (some chained) unreadable (some (linked 2000 1000)) accept 2 [] =
      some ([2000],1) := ⟨rfl,rfl,rfl⟩

end Pprof
