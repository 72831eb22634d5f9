import Mathlib.Algebra.Ring.Nat
import Pprof.Lib.Descriptors
import Pprof.Lib.Runs
set_option autoImplicit false

/-! Whether memory can be read is found out by writing it to a pipe. The pipe is opened
by the first call that finds none. -/

namespace Pprof
open Descriptors Runs

/-- The numbers of the ends, -1 before there is a pipe. -/
structure Pipes where
  read_fd : Int
  write_fd : Int
  deriving DecidableEq, Repr

def MEM_VALIDATE_PIPE : Pipes := ⟨-1,-1⟩

def CHECK_LENGTH : Nat := 2 * 8 / 1

structure Access where
  addr : UInt64
  memory : UInt64 → Option UInt8

def Access.Readable (a : Access) : Prop :=
  a.addr.toNat + CHECK_LENGTH ≤ 2^64 ∧
    ∀ i < CHECK_LENGTH, (a.memory (a.addr + UInt64.ofNat i)).isSome

instance (a : Access) : Decidable a.Readable := by unfold Access.Readable; infer_instance

def Access.slice (a : Access) : Option (List UInt8) :=
  if a.Readable then
    some ((List.range CHECK_LENGTH).map fun i => (a.memory (a.addr + UInt64.ofNat i)).getD 0)
  else none

structure Process where
  MEM_VALIDATE_PIPE : Pipes
  table : Table

/-- What one call finds: the access it is about, how often a signal interrupts its `read` and
its `write`, the numbers that a new pipe would get, and what a descriptor that is no end of
a pipe would answer. -/
structure Validate where
  access : Access
  read_interrupts : Nat
  write_interrupts : Nat
  created : Option (Int × Int)
  foreign : Except Errno Nat

def open_pipe (s : Process) (created : Option (Int × Int)) : Except Errno Unit × Process :=
  -- ignore the result
  let table := (s.table.close s.MEM_VALIDATE_PIPE.read_fd).close s.MEM_VALIDATE_PIPE.write_fd
  match table.pipe created with
  | none => (.error .other,{ s with table := table })
  | some ((read_fd,write_fd),table) => (.ok (),⟨⟨read_fd,write_fd⟩,table⟩)

/-- The loop around `read`; an `EINTR` starts it again. -/
def valid_read (table : Table) (read_fd : Int) (foreign : Except Errno Nat) :
    Nat → Bool × Table
  | interrupts+1 => valid_read table read_fd foreign interrupts
  | 0 =>
    match table.read read_fd CHECK_LENGTH foreign with
    | (.ok bytes,table) => (decide (0 < bytes),table)
    | (.error .EAGAIN,table) => (true,table)
    | (.error _,table) => (false,table)

def valid_write (capacity : Nat) (table : Table) (write_fd : Int) (buf : Option (List UInt8))
    (foreign : Except Errno Nat) : Nat → Bool × Table
  | interrupts+1 => valid_write capacity table write_fd buf foreign interrupts
  | 0 =>
    match table.write capacity write_fd buf foreign with
    | (.ok bytes,table) => (decide (0 < bytes),table)
    | (.error _,table) => (false,table)

def Process.ready (s : Process) (c : Validate) : Except Errno Unit × Process :=
  match valid_read s.table s.MEM_VALIDATE_PIPE.read_fd c.foreign c.read_interrupts with
  | (true,table) => (.ok (),{ s with table := table })
  | (false,table) => open_pipe { s with table := table } c.created

def Process.validate (capacity : Nat) (s : Process) (c : Validate) : Bool × Process :=
  if c.access.addr = 0 then (false,s)
  else
    match s.ready c with
    | (.error _,s) => (false,s)
    | (.ok (),s) =>
      let (valid,table) := valid_write capacity s.table s.MEM_VALIDATE_PIPE.write_fd c.access.slice
        c.foreign c.write_interrupts
      (valid,{ s with table := table })

inductive ValidateEvent where
  | call (c : Validate)
  | open_other (fd : Int)
  | close_other (fd : Int)

def Process.step (capacity : Nat) (s : Process) : ValidateEvent → Option Process
  | .call c => some (s.validate capacity c).2
  | .open_other fd => (s.table.open_other fd).map fun table => { s with table := table }
  | .close_other fd => (s.table.close_other fd).map fun table => { s with table := table }

structure Process.Unopened (s : Process) : Prop where
  pipe : s.MEM_VALIDATE_PIPE = Pprof.MEM_VALIDATE_PIPE
  negative : ∀ fd, fd < 0 → s.table.get fd = none

def Process.Opened (s : Process) : Prop :=
  ∃ p, s.table.Piped p s.MEM_VALIDATE_PIPE.read_fd s.MEM_VALIDATE_PIPE.write_fd

def Process.CanOpen (s : Process) (c : Validate) : Prop := (s.table.pipe c.created).isSome

/-- At most one pipe has been made since there were `n`, and it holds no more than one check. -/
inductive Process.Sound (n : Nat) (s : Process) : Prop where
  | unopened (h : s.Unopened) (pipes : s.table.pipes = n)
  | opened (piped : s.table.Piped n s.MEM_VALIDATE_PIPE.read_fd s.MEM_VALIDATE_PIPE.write_fd)
      (pipes : s.table.pipes = n+1) (held : (s.table.bytes n).length ≤ CHECK_LENGTH)

theorem Access.slice_of_readable {a : Access} (h : a.Readable) :
    ∃ bytes, a.slice = some bytes ∧ bytes.length = CHECK_LENGTH :=
  ⟨_,if_pos h,by rw [List.length_map,List.length_range]⟩

theorem Access.slice_of_not_readable {a : Access} (h : ¬ a.Readable) : a.slice = none := if_neg h

theorem valid_read_eq (table : Table) (read_fd : Int) (foreign : Except Errno Nat)
    (interrupts : Nat) :
    valid_read table read_fd foreign interrupts = valid_read table read_fd foreign 0 := by
  induction interrupts with
  | zero => rfl
  | succ n ih => exact ih

theorem valid_write_eq (capacity : Nat) (table : Table) (write_fd : Int)
    (buf : Option (List UInt8)) (foreign : Except Errno Nat) (interrupts : Nat) :
    valid_write capacity table write_fd buf foreign interrupts =
      valid_write capacity table write_fd buf foreign 0 := by
  induction interrupts with
  | zero => rfl
  | succ n ih => exact ih

theorem check_length_pos : 0 < CHECK_LENGTH := by decide

theorem valid_read_closed {table : Table} {read_fd : Int} (h : table.get read_fd = none)
    (foreign : Except Errno Nat) (interrupts : Nat) :
    valid_read table read_fd foreign interrupts = (false,table) := by
  rw [valid_read_eq]
  simp only [valid_read,Table.read_of_get_none h]

theorem valid_read_piped {table : Table} {p : Nat} {r w : Int} (h : table.Piped p r w)
    (foreign : Except Errno Nat) (interrupts : Nat) :
    valid_read table r foreign interrupts = (true,{ table with
      bytes := Function.update table.bytes p ((table.bytes p).drop CHECK_LENGTH) }) := by
  rw [valid_read_eq]
  obtain ⟨answer,ha,hr⟩ := h.read check_length_pos foreign
  simp only [valid_read,hr]
  rcases ha with rfl | ⟨m,rfl,hm⟩
  · rfl
  · simp only [hm,decide_true]

theorem valid_write_piped {table : Table} {p : Nat} {r w : Int} (h : table.Piped p r w)
    {capacity : Nat} {bytes : List UInt8} (hpos : 0 < bytes.length)
    (hroom : (table.bytes p).length + bytes.length ≤ capacity) (foreign : Except Errno Nat)
    (interrupts : Nat) : valid_write capacity table w (some bytes) foreign interrupts =
      (true,{ table with bytes := Function.update table.bytes p (table.bytes p ++ bytes) }) := by
  rw [valid_write_eq]
  simp only [valid_write,h.write hroom,hpos,decide_true]

theorem valid_write_unreadable {table : Table} {p : Nat} {r w : Int} (h : table.Piped p r w)
    (capacity : Nat) (foreign : Except Errno Nat) (interrupts : Nat) :
    valid_write capacity table w none foreign interrupts = (false,table) := by
  rw [valid_write_eq]
  simp only [valid_write,h.write_unreadable]

theorem open_pipe_unopened {s : Process} (h : s.Unopened) (created : Option (Int × Int)) :
    open_pipe s created =
      match s.table.pipe created with
      | none => (.error .other,s)
      | some ((read_fd,write_fd),table) => (.ok (),⟨⟨read_fd,write_fd⟩,table⟩) := by
  have hone : s.table.close (-1) = s.table :=
    Table.close_of_get_none (h.negative (-1) (by decide))
  have hclose : (s.table.close s.MEM_VALIDATE_PIPE.read_fd).close s.MEM_VALIDATE_PIPE.write_fd =
      s.table := by
    rw [h.pipe]
    exact (congrArg (·.close (-1)) hone).trans hone
  unfold open_pipe
  simp only [hclose]

theorem Process.Sound.ready {n : Nat} {s : Process} (h : s.Sound n) (c : Validate) :
    (∃ s', s.ready c = (.ok (),s') ∧ (s.Opened ∨ s.CanOpen c) ∧ s'.table.bytes n = [] ∧
      s'.table.pipes = n+1 ∧
      s'.table.Piped n s'.MEM_VALIDATE_PIPE.read_fd s'.MEM_VALIDATE_PIPE.write_fd) ∨
    (∃ err, s.ready c = (.error err,s) ∧ ¬ (s.Opened ∨ s.CanOpen c)) := by
  cases h with
  | opened piped pipes held =>
    have hready : s.ready c = (.ok (),{ s with table := { s.table with
        bytes := Function.update s.table.bytes n ((s.table.bytes n).drop CHECK_LENGTH) } }) := by
      rw [Process.ready,valid_read_piped piped]
    refine Or.inl ⟨_,hready,Or.inl ⟨n,piped⟩,?_,pipes,piped.reader,piped.writer⟩
    simp only [Function.update_self]
    exact List.drop_eq_nil_of_le held
  | unopened h pipes =>
    have hnone : s.table.get s.MEM_VALIDATE_PIPE.read_fd = none := by
      rw [h.pipe]
      exact h.negative (-1) (by decide)
    have hready : s.ready c = open_pipe s c.created := by
      rw [Process.ready,valid_read_closed hnone]
    rw [hready,open_pipe_unopened h]
    cases hp : s.table.pipe c.created with
    | none =>
      refine Or.inr ⟨_,rfl,?_⟩
      rintro (⟨p,hr,-⟩ | hc)
      · rw [hnone] at hr
        cases hr
      · simp [CanOpen,hp] at hc
    | some made =>
      obtain ⟨⟨r,w⟩,table⟩ := made
      obtain ⟨-,-,-,-,rfl⟩ := Table.pipe_eq hp
      subst pipes
      refine Or.inl ⟨_,rfl,Or.inr (by simp [CanOpen,hp]),?_,rfl,Table.pipe_piped hp⟩
      exact Function.update_self ..

theorem Process.Sound.validate {n capacity : Nat} (hcap : CHECK_LENGTH ≤ capacity) {s : Process}
    (h : s.Sound n) (c : Validate) :
    ((s.validate capacity c).1 = true ↔
      c.access.addr ≠ 0 ∧ c.access.Readable ∧ (s.Opened ∨ s.CanOpen c)) ∧
    (s.validate capacity c).2.Sound n := by
  unfold Process.validate
  by_cases h0 : c.access.addr = 0
  · simp only [h0,if_true]
    exact ⟨by simp,h⟩
  simp only [h0,if_false]
  rcases h.ready c with ⟨s',hs,hopen,hempty,hpipes,hpiped⟩ | ⟨err,hs,hopen⟩
  · simp only [hs]
    by_cases hr : c.access.Readable
    · obtain ⟨bytes,hb,hlen⟩ := Access.slice_of_readable hr
      have hroom : (s'.table.bytes n).length + bytes.length ≤ capacity := by
        rw [hempty,hlen]
        simpa using hcap
      have hpos : 0 < bytes.length := by
        rw [hlen]
        exact check_length_pos
      rw [hb,valid_write_piped hpiped hpos hroom]
      refine ⟨by simp [h0,hr,hopen],.opened ⟨hpiped.reader,hpiped.writer⟩ hpipes ?_⟩
      simp [hempty,hlen]
    · rw [Access.slice_of_not_readable hr,valid_write_unreadable hpiped]
      exact ⟨by simp [hr],.opened hpiped hpipes (by simp [hempty])⟩
  · simp only [hs]
    exact ⟨by simp [hopen],h⟩

theorem Process.Sound.foreign {n : Nat} {s : Process} (h : s.Sound n) {table : Table}
    (hf : s.table.Foreign table) : Process.Sound n { s with table := table } := by
  cases h with
  | unopened h pipes =>
    refine .unopened ⟨h.pipe,fun fd hfd => ?_⟩ (hf.pipes.trans pipes)
    exact hf.negative fd hfd (h.negative fd hfd)
  | opened piped pipes held =>
    refine .opened (hf.toKeeps.piped piped) (hf.pipes.trans pipes) ?_
    rw [hf.bytes]
    exact held

theorem sound_step {n capacity : Nat} (hcap : CHECK_LENGTH ≤ capacity) (s : Process)
    (e : ValidateEvent) (s' : Process) (h : s.Sound n) (hs : s.step capacity e = some s') :
    s'.Sound n := by
  cases e with
  | call c =>
    cases hs
    exact (h.validate hcap c).2
  | open_other fd =>
    obtain ⟨table,ht,rfl⟩ := Option.map_eq_some_iff.mp hs
    exact h.foreign (Table.open_other_foreign ht)
  | close_other fd =>
    obtain ⟨table,ht,rfl⟩ := Option.map_eq_some_iff.mp hs
    exact h.foreign (Table.close_other_foreign ht)

/-- Every call answers what is asked, the pipe never holds more than one check, so that
there is always room for the write, and only one pipe is opened. -/
theorem validate_answers {capacity : Nat} (hcap : CHECK_LENGTH ≤ capacity) {s₀ : Process}
    (h₀ : s₀.Unopened) {es : List ValidateEvent} {s : Process}
    (hrun : run (Process.step capacity) s₀ es = some s) :
    (∀ c, (s.validate capacity c).1 = true ↔
      c.access.addr ≠ 0 ∧ c.access.Readable ∧ (s.Opened ∨ s.CanOpen c)) ∧
    (∀ p, s₀.table.pipes ≤ p → p < s.table.pipes →
      (s.table.bytes p).length ≤ CHECK_LENGTH) ∧
    (∀ c s', s.ready c = (.ok (),s') →
      (s'.table.write capacity s'.MEM_VALIDATE_PIPE.write_fd c.access.slice c.foreign).1 ≠
        .error .EAGAIN) ∧
    s.table.pipes ≤ s₀.table.pipes + 1 := by
  have ha : Along (Process.step capacity) (fun _ _ => True) s₀ es :=
    Along.of_forall (fun _ _ => trivial) s₀ es
  have hs : s.Sound s₀.table.pipes :=
    invariant_along (fun s e s' h _ => sound_step hcap s e s' h) (.unopened h₀ rfl) ha hrun
  refine ⟨fun c => (hs.validate hcap c).1,fun p hle hlt => ?_,fun c s' hr hw => ?_,?_⟩
  · cases hs with
    | unopened _ pipes => omega
    | opened _ pipes held =>
      obtain rfl : p = s₀.table.pipes := by omega
      exact held
  · rcases hs.ready c with ⟨t,ht,-,hempty,-,hpiped⟩ | ⟨err,he,-⟩
    · rw [ht] at hr
      cases hr
      by_cases hread : c.access.Readable
      · obtain ⟨bytes,hb,hlen⟩ := Access.slice_of_readable hread
        rw [hb,hpiped.write (by rw [hempty,hlen]; simpa using hcap)] at hw
        cases hw
      · rw [Access.slice_of_not_readable hread,hpiped.write_unreadable] at hw
        cases hw
    · rw [he] at hr
      cases hr
  · cases hs with
    | unopened _ pipes => omega
    | opened _ pipes _ => omega

def Process.started : Process :=
  ⟨Pprof.MEM_VALIDATE_PIPE,⟨[(0,.other),(1,.other),(2,.other)],fun _ => [],0⟩⟩

theorem Process.started_unopened : Process.started.Unopened := by
  refine ⟨rfl,fun fd hfd => ?_⟩
  have h0 : fd ≠ 0 := by omega
  have h1 : fd ≠ 1 := by omega
  have h2 : fd ≠ 2 := by omega
  simp only [started,Table.get_cons,h0,h1,h2,if_false]
  rfl

def Validate.interrupted : Validate := ⟨⟨4096,fun _ => some 7⟩,1,2,some (3,4),.ok 0⟩

theorem validate_answers_again :
    ∃ s, run (Process.step 65536) Process.started [.call .interrupted,.call .interrupted] = some s ∧
      (s.validate 65536 .interrupted).1 = true ∧ s.table.pipes = 1 ∧
      (s.table.bytes 0).length ≤ CHECK_LENGTH := by
  obtain ⟨s,hrun⟩ : ∃ s, run (Process.step 65536) Process.started
      [.call .interrupted,.call .interrupted] = some s := ⟨_,rfl⟩
  have hpipes : s.table.pipes = 1 ∧ s.Opened := by
    cases hrun
    exact ⟨rfl,0,rfl,rfl⟩
  obtain ⟨hvalid,hheld,-,-⟩ := validate_answers (by decide) Process.started_unopened hrun
  refine ⟨s,hrun,(hvalid .interrupted).mpr ⟨by decide,by decide,Or.inl hpipes.2⟩,hpipes.1,
    hheld 0 (Nat.le_refl 0) ?_⟩
  rw [hpipes.1]
  decide

end Pprof
