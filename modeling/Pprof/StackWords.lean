import Pprof.AddrValidate
import Pprof.Framehop
import Pprof.Lib.ByteMemory
set_option autoImplicit false

/-! How the two unwinders read the stack. The walk along the frame pointers reads a record
wherever it starts, while the words for framehop are read after the address is rounded down. -/

namespace Pprof
open ByteMemory Runs

structure Pointee (T : Type) where
  size : Nat
  align : Nat
  ofBytes : List UInt8 → T

def usize : Pointee UInt64 := ⟨8,8,fromLeBytes⟩

def FramePointerLayout.pointee : Pointee FramePointerLayout :=
  ⟨16,8,fun bs => ⟨fromLeBytes (bs.take 8),fromLeBytes (bs.drop 8)⟩⟩

section Pointers
variable {T : Type} (t : Pointee T) (memory : UInt64 → Option UInt8) (ptr : UInt64)

def read_unaligned : Option T := (load memory ptr t.size).map t.ofBytes

/-- `std::ptr::read`, which is only defined at an aligned address. -/
def ptr_read : Option T :=
  if ptr.toNat%t.align = 0 then (load memory ptr t.size).map t.ofBytes else none

def read_ptr : Option T :=
  if ptr.toNat%t.align = 0 then ptr_read t memory ptr else read_unaligned t memory ptr

theorem read_ptr_eq : read_ptr t memory ptr = (load memory ptr t.size).map t.ofBytes := by
  unfold read_ptr ptr_read read_unaligned
  split <;> rfl

end Pointers

/-- The stack as framehop finds it in a process, by the calls of `validate` around its reads. -/
def Process.stack (capacity : Nat) (s : Process) (c : Validate) (memory : UInt64 → Option UInt8) :
    StackMemory where
  validate addr := (s.validate capacity { c with access := ⟨addr,memory⟩ }).1
  read addr := (ptr_read usize memory addr).getD 0

def Process.surroundings (capacity : Nat) (s : Process) (c : Validate)
    (memory : UInt64 → Option UInt8) : Surroundings where
  read_ptr _ ptr := (read_ptr FramePointerLayout.pointee memory ptr).getD ⟨0,0⟩
  validate _ ptr := (s.validate capacity { c with access := ⟨ptr,memory⟩ }).1

structure ReadsAlike (m : StackMemory) (w : Surroundings) (memory : UInt64 → Option UInt8)
    (addr : UInt64) : Prop where
  word : ∀ v, read_stack m addr = .ok v →
    Loadable memory addr 8 ∧ read_ptr usize memory addr = some v
  walker : ∀ v i, read_stack m addr = .ok v → w.validate i addr = true →
    (w.read_ptr i addr).frame_pointer = v
  unreadable : ¬ Loadable memory addr 8 → read_stack m addr = .error ()

def Process.Accepts (s : Process) (c : Validate) (memory : UInt64 → Option UInt8)
    (addr : UInt64) : Prop :=
  addr ≠ 0 ∧ Loadable memory addr CHECK_LENGTH ∧ (s.Opened ∨ s.CanOpen c)

def Repeats (memory : UInt64 → Option UInt8) (addr : UInt64) : Prop :=
  ∀ i < 8, memory (roundDown addr+UInt64.ofNat i) = memory (addr+UInt64.ofNat i)

theorem stack_validate {n capacity : Nat} (hcap : CHECK_LENGTH ≤ capacity) {s : Process}
    (h : s.Sound n) (c : Validate) (memory : UInt64 → Option UInt8) (addr : UInt64) :
    (s.stack capacity c memory).validate addr = true ↔ s.Accepts c memory addr :=
  (h.validate hcap _).1

/-- The sixteen bytes that are checked reach beyond the word, wherever it starts. -/
theorem Process.Accepts.loadable {s : Process} {c : Validate} {memory : UInt64 → Option UInt8}
    {addr : UInt64} (h : s.Accepts c memory (roundDown addr)) :
    Loadable memory (roundDown addr) 8 ∧ Loadable memory addr 8 := by
  have hlen : CHECK_LENGTH = 16 := rfl
  have hword := h.2.1.within (i := addr.toNat%8) (k := 8) (by omega) (by omega)
  rw [roundDown_add] at hword
  exact ⟨h.2.1.start (by omega),hword⟩

theorem ptr_read_roundDown (memory : UInt64 → Option UInt8) (addr : UInt64) :
    ptr_read usize memory (roundDown addr) = read_ptr usize memory (roundDown addr) := by
  have hr : (roundDown addr).toNat%8 = 0 := by
    rw [toNat_roundDown]
    omega
  rw [read_ptr_eq]
  exact if_pos hr

theorem read_ptr_word {memory : UInt64 → Option UInt8} {addr : UInt64}
    (h : Loadable memory addr 8) : ∃ v, read_ptr usize memory addr = some v := by
  rw [read_ptr_eq]
  exact ⟨_,congrArg (Option.map _) (load_of_loadable h)⟩

theorem read_ptr_record {memory : UInt64 → Option UInt8} {addr v : UInt64}
    (h : Loadable memory addr CHECK_LENGTH) (hv : read_ptr usize memory addr = some v) :
    ∃ record, read_ptr FramePointerLayout.pointee memory addr = some record ∧
      record.frame_pointer = v := by
  obtain ⟨bs,hbs⟩ : ∃ bs, load memory addr 16 = some bs := ⟨_,load_of_loadable h⟩
  have hword : read_ptr usize memory addr = some (fromLeBytes (bs.take 8)) := by
    rw [read_ptr_eq]
    have hstart : load memory addr 8 = some (bs.take 8) := load_start hbs (by omega)
    exact congrArg (Option.map _) hstart
  refine ⟨⟨fromLeBytes (bs.take 8),fromLeBytes (bs.drop 8)⟩,?_,?_⟩
  · rw [read_ptr_eq]
    exact congrArg (Option.map _) hbs
  · rw [hv] at hword
    exact (Option.some.inj hword).symm

section Reading
variable {n capacity : Nat} {s : Process} {c : Validate} {memory : UInt64 → Option UInt8}
  {addr : UInt64}

theorem read_stack_rejected (hcap : CHECK_LENGTH ≤ capacity) (h : s.Sound n)
    (ha : ¬ s.Accepts c memory (roundDown addr)) :
    read_stack (s.stack capacity c memory) addr = .error () :=
  if_neg (mt (stack_validate hcap h c memory _).mp ha)

theorem read_stack_accepted (hcap : CHECK_LENGTH ≤ capacity) (h : s.Sound n)
    (ha : s.Accepts c memory (roundDown addr)) {v : UInt64}
    (hv : read_ptr usize memory (roundDown addr) = some v) :
    read_stack (s.stack capacity c memory) addr = .ok v := by
  have hread : (s.stack capacity c memory).read (roundDown addr) = v := by
    change (ptr_read usize memory (roundDown addr)).getD 0 = v
    rw [ptr_read_roundDown,hv]
    rfl
  rw [← hread]
  exact if_pos ((stack_validate hcap h c memory _).mpr ha)

theorem walker_reads (hcap : CHECK_LENGTH ≤ capacity) (h : s.Sound n) {v : UInt64} {i : Nat}
    (hv : read_ptr usize memory addr = some v)
    (ha : (s.surroundings capacity c memory).validate i addr = true) :
    ((s.surroundings capacity c memory).read_ptr i addr).frame_pointer = v := by
  obtain ⟨record,hrecord,hfp⟩ :=
    read_ptr_record ((stack_validate hcap h c memory addr).mp ha).2.1 hv
  change ((read_ptr FramePointerLayout.pointee memory addr).getD ⟨0,0⟩).frame_pointer = v
  rw [hrecord]
  exact hfp

theorem repeats_iff (hl : Loadable memory (roundDown addr) 8) (hl' : Loadable memory addr 8) :
    Repeats memory addr ↔ read_ptr usize memory (roundDown addr) = read_ptr usize memory addr := by
  rw [read_ptr_eq,read_ptr_eq]
  constructor
  · intro h
    exact congrArg (Option.map _) (load_eq_of_bytes_eq hl hl' h)
  · intro h
    apply bytes_eq_of_load_eq hl hl'
    have hb := load_of_loadable hl
    have hb' := load_of_loadable hl'
    rw [usize,hb,hb'] at h
    rw [hb,hb',fromLeBytes_inj (length_of_load hb) (length_of_load hb') (Option.some.inj h)]

theorem reads_alike_iff (hcap : CHECK_LENGTH ≤ capacity) (h : s.Sound n) :
    ReadsAlike (s.stack capacity c memory) (s.surroundings capacity c memory) memory addr ↔
      (s.Accepts c memory (roundDown addr) → Repeats memory addr) := by
  by_cases ha : s.Accepts c memory (roundDown addr)
  · obtain ⟨hl,hl'⟩ := ha.loadable
    obtain ⟨v,hv⟩ := read_ptr_word hl
    have hread := read_stack_accepted hcap h ha hv
    rw [repeats_iff hl hl',hv]
    constructor
    · intro hr _
      exact (hr.word v hread).2.symm
    · intro hr
      have hword := (hr ha).symm
      refine ⟨fun w hw => ?_,fun w i hw hvalid => ?_,fun hnot => absurd hl' hnot⟩
      · rw [hread] at hw
        cases hw
        exact ⟨hl',hword⟩
      · rw [hread] at hw
        cases hw
        exact walker_reads hcap h hword hvalid
  · have hread := read_stack_rejected hcap h ha
    refine ⟨fun _ hacc => absurd hacc ha,fun _ => ⟨fun v hv => ?_,fun v i hv => ?_,fun _ => hread⟩⟩
    · rw [hread] at hv
      cases hv
    · rw [hread] at hv
      cases hv

end Reading

/-- In a process of any history, the two unwinders read the same word at an address exactly
if the address is aligned, or rounded down is not accepted, or repeats what lies there. -/
theorem stack_words_alike_iff {capacity : Nat} (hcap : CHECK_LENGTH ≤ capacity) {s₀ s : Process}
    (h₀ : s₀.Unopened) {es : List ValidateEvent}
    (hrun : run (Process.step capacity) s₀ es = some s) (c : Validate)
    (memory : UInt64 → Option UInt8) (addr : UInt64) :
    ReadsAlike (s.stack capacity c memory) (s.surroundings capacity c memory) memory addr ↔
      addr.toNat%8 = 0 ∨ ¬ s.Accepts c memory (roundDown addr) ∨ Repeats memory addr := by
  have hs : s.Sound s₀.table.pipes := Reachable.invariant
    (fun s e s' h => sound_step hcap s e s' h) (.unopened h₀ rfl) ⟨es,hrun⟩
  rw [reads_alike_iff hcap hs]
  constructor
  · intro h
    by_cases ha : s.Accepts c memory (roundDown addr)
    · exact .inr (.inr (h ha))
    · exact .inr (.inl ha)
  · intro h hacc
    rcases h with haligned | ha | hr
    · intro i _
      rw [roundDown_of_aligned haligned]
    · exact absurd hacc ha
    · exact hr

def ramp (addr : UInt64) : Option UInt8 := some addr.toUInt8

theorem stack_words_alike_iff_aligned :
    ReadsAlike (Process.started.stack 65536 .interrupted ramp)
      (Process.started.surroundings 65536 .interrupted ramp) ramp 4096 ∧
    read_stack (Process.started.stack 65536 .interrupted ramp) 4096 = .ok 0x0706050403020100 :=
  ⟨(stack_words_alike_iff (by decide) Process.started_unopened (run_nil _) .interrupted ramp
    4096).mpr (.inl (by decide)),by decide⟩

/-- One byte past the start of a word, framehop gets the word from its start. -/
theorem stack_word_before :
    read_stack (Process.started.stack 65536 .interrupted ramp) 4097 = .ok 0x0706050403020100 ∧
    read_ptr usize ramp 4097 = some 0x0807060504030201 ∧
    ¬ ReadsAlike (Process.started.stack 65536 .interrupted ramp)
      (Process.started.surroundings 65536 .interrupted ramp) ramp 4097 := by
  have hstack : read_stack (Process.started.stack 65536 .interrupted ramp) 4097 =
    .ok 0x0706050403020100 := by decide
  have hword : read_ptr usize ramp 4097 = some 0x0807060504030201 := by decide
  refine ⟨hstack,hword,fun h => ?_⟩
  have hsame := (h.word _ hstack).2
  rw [hword] at hsame
  exact absurd hsame (by decide)

end Pprof
