import Pprof.AddrValidate
import Pprof.Lib.Sharing
set_option autoImplicit false

/-! Calls of `validate` that overlap. They share the two numbers and the descriptors of the
process, and each of their steps may come between any two of another call. -/

namespace Pprof
open Descriptors Runs Sharing

/-- The next step of a call, with the numbers that it has loaded. The first four steps of
`open_pipe` load and close the one number and the other. -/
inductive ValidatePc where
  | load_read_fd
  | read (fd : Int)
  | load_old_read_fd
  | close_read (fd : Int)
  | load_old_write_fd
  | close_write (fd : Int)
  | create_pipe
  | store_read_fd (read_fd write_fd : Int)
  | store_write_fd (write_fd : Int)
  | load_write_fd
  | write (fd : Int)
  | returned (result create_failed : Bool)
  deriving DecidableEq, Repr

structure Validating where
  access : Access
  pc : ValidatePc

abbrev Validators := Shared Process Validating

/-- One step of a call. `created` and `foreign` are as for a whole call. -/
def Process.next (capacity : Nat) (created : Option (Int × Int)) (foreign : Except Errno Nat)
    (s : Process) (c : Validating) : Option (Process × Validating) :=
  match c.pc with
  | .load_read_fd => some (s,{ c with pc := .read s.MEM_VALIDATE_PIPE.read_fd })
  | .read fd =>
    let (answer,table) := s.table.read fd CHECK_LENGTH foreign
    let pc := match answer with
      | .ok bytes => if 0 < bytes then .load_write_fd else .load_old_read_fd
      | .error .EAGAIN => .load_write_fd
      | .error _ => .load_old_read_fd
    some ({ s with table := table },{ c with pc := pc })
  | .load_old_read_fd => some (s,{ c with pc := .close_read s.MEM_VALIDATE_PIPE.read_fd })
  | .close_read fd =>
    some ({ s with table := s.table.close fd },{ c with pc := .load_old_write_fd })
  | .load_old_write_fd => some (s,{ c with pc := .close_write s.MEM_VALIDATE_PIPE.write_fd })
  | .close_write fd => some ({ s with table := s.table.close fd },{ c with pc := .create_pipe })
  | .create_pipe =>
    match s.table.pipe created with
    | none => some (s,{ c with pc := .returned false true })
    | some ((read_fd,write_fd),table) =>
      some ({ s with table := table },{ c with pc := .store_read_fd read_fd write_fd })
  | .store_read_fd read_fd write_fd =>
    some ({ s with MEM_VALIDATE_PIPE := { s.MEM_VALIDATE_PIPE with read_fd := read_fd } },
      { c with pc := .store_write_fd write_fd })
  | .store_write_fd write_fd =>
    some ({ s with MEM_VALIDATE_PIPE := { s.MEM_VALIDATE_PIPE with write_fd := write_fd } },
      { c with pc := .load_write_fd })
  | .load_write_fd => some (s,{ c with pc := .write s.MEM_VALIDATE_PIPE.write_fd })
  | .write fd =>
    let (answer,table) := s.table.write capacity fd c.access.slice foreign
    let result := match answer with
      | .ok bytes => decide (0 < bytes)
      | .error _ => false
    some ({ s with table := table },{ c with pc := .returned result false })
  | .returned _ _ => none

inductive ValidateStep where
  | call (access : Access)
  | go (i : Nat) (created : Option (Int × Int)) (foreign : Except Errno Nat)
  | interrupt (i : Nat)
  | open_other (fd : Int)
  | close_other (fd : Int)

def Validators.step (capacity : Nat) (s : Validators) : ValidateStep → Option Validators
  | .call access =>
    -- a null pointer is answered at once
    some (s.spawn ⟨access,if access.addr = 0 then .returned false false else .load_read_fd⟩)
  | .go i created foreign => s.go (Process.next capacity created foreign) i
  | .interrupt i =>
    -- `EINTR` starts the loop around the `read` or the `write` again
    match (s.threads[i]?).map Validating.pc with
    | some (.read _) | some (.write _) => some s
    | _ => none
  | .open_other fd => (s.state.table.open_other fd).map fun table =>
      { s with state := { s.state with table := table } }
  | .close_other fd => (s.state.table.close_other fd).map fun table =>
      { s with state := { s.state with table := table } }

def Process.Owns (s : Process) (fd : Int) : Prop :=
  ∃ p, s.table.get fd = some (.reader p) ∨ s.table.get fd = some (.writer p)

/-- What a call may do next, and what it may have answered. The number -1 is no descriptor. -/
def Process.Allows (s : Process) (c : Validating) : Prop :=
  match c.pc with
  | .close_read fd | .close_write fd => fd = -1 ∨ s.Owns fd
  | .write fd => s.Owns fd
  | .returned result create_failed =>
    create_failed = false → c.access.addr ≠ 0 → c.access.Readable → result = true
  | _ => True

def ValidatePc.replacing : ValidatePc → Bool
  | .close_read _ | .load_old_write_fd | .close_write _ | .create_pipe | .store_read_fd _ _ |
    .store_write_fd _ => true
  | _ => false

def ValidatePc.torn : ValidatePc → Bool
  | .load_old_write_fd | .close_write _ | .create_pipe | .store_read_fd _ _ |
    .store_write_fd _ => true
  | _ => false

def ValidatePc.writing : ValidatePc → Bool
  | .write _ => true
  | _ => false

def Process.room (capacity : Nat) (s : Process) (fd : Int) : Bool :=
  match s.table.get fd with
  | some (.writer p) => decide ((s.table.bytes p).length + CHECK_LENGTH ≤ capacity)
  | _ => true

/-- One call at a time replaces the pipe, with no other call about to write from when it
closes the old one until it has stored the new one; a pipe that replaces another is created;
a write finds room. -/
abbrev Validators.ApartAt (capacity : Nat) (created : Option (Int × Int)) (s : Validators)
    (c : Validating) : Prop :=
  match c.pc with
  | .load_old_read_fd => ∀ d ∈ s.threads, d.pc.replacing = false
  | .close_read _ => ∀ d ∈ s.threads, d.pc.writing = false
  | .load_write_fd => ∀ d ∈ s.threads, d.pc.torn = false
  | .create_pipe =>
    s.state.MEM_VALIDATE_PIPE.read_fd ≠ -1 → (s.state.table.pipe created).isSome = true
  | .write fd => c.access.Readable → s.state.room capacity fd = true
  | _ => True

instance (capacity : Nat) (created : Option (Int × Int)) (s : Validators) (c : Validating) :
    Decidable (Validators.ApartAt capacity created s c) := by
  obtain ⟨access,pc⟩ := c
  cases pc <;> infer_instance

abbrev Validators.Apart (capacity : Nat) (s : Validators) : ValidateStep → Prop
  | .go i created _ => ∀ c ∈ s.threads[i]?, s.ApartAt capacity created c
  | _ => True

instance (capacity : Nat) (s : Validators) (l : ValidateStep) :
    Decidable (s.Apart capacity l) := by
  cases l <;> infer_instance

def Process.NoPipe (s : Process) : Prop := s.MEM_VALIDATE_PIPE = Pprof.MEM_VALIDATE_PIPE

def Process.Stored (s : Process) : Prop := s.MEM_VALIDATE_PIPE.read_fd ≠ -1

def Process.AtRest (s : Process) : Prop := s.NoPipe ∨ s.Opened

def Process.HalfClosed (s : Process) : Prop :=
  s.NoPipe ∨
    s.Stored ∧ ∃ p, s.table.get s.MEM_VALIDATE_PIPE.write_fd = some (.writer p)

def Process.Fits (s : Process) (c : Validating) : Prop :=
  match c.pc with
  | .load_read_fd | .load_old_read_fd => True
  | .read fd => fd = -1 ∨ s.Stored
  | .close_read fd => fd = s.MEM_VALIDATE_PIPE.read_fd
  | .load_old_write_fd => s.HalfClosed
  | .close_write fd => fd = s.MEM_VALIDATE_PIPE.write_fd ∧ s.HalfClosed
  | .create_pipe => s.NoPipe ∨ s.Stored
  | .store_read_fd r w => ∃ p, s.table.Piped p r w
  | .store_write_fd w => ∃ p, s.table.Piped p s.MEM_VALIDATE_PIPE.read_fd w
  | .load_write_fd => s.Stored
  | .write fd => fd = s.MEM_VALIDATE_PIPE.write_fd ∧ s.Opened
  | .returned result create_failed =>
    create_failed = false → c.access.addr ≠ 0 → c.access.Readable → result = true

structure Validators.Sound (s : Validators) : Prop where
  negative : ∀ fd, fd < 0 → s.state.table.get fd = none
  fits : s.All Process.Fits
  one : AtMostOne (fun c => c.pc.replacing) s.threads
  quiet : ∀ c ∈ s.threads, ∀ d ∈ s.threads, c.pc.torn = true → d.pc.writing = false
  rest : (∀ c ∈ s.threads, c.pc.torn = false) → s.state.AtRest

theorem replacing_of_torn {pc : ValidatePc} (h : pc.torn = true) : pc.replacing = true := by
  cases pc <;> first | rfl | cases h

theorem not_writing_of_torn {pc : ValidatePc} (h : pc.torn = true) : pc.writing = false := by
  cases pc <;> first | rfl | cases h

theorem Process.Fits.keeps {s : Process} {c : Validating} (h : s.Fits c) {table : Table}
    (hk : s.table.Keeps table) : Process.Fits { s with table := table } c := by
  have hhalf : s.HalfClosed → HalfClosed { s with table := table } := by
    rintro (hp | ⟨hs,p,hw⟩)
    · exact Or.inl hp
    · exact Or.inr ⟨hs,p,hk.ends _ (.writer p) nofun hw⟩
  obtain ⟨access,pc⟩ := c
  cases pc with
  | load_read_fd | load_old_read_fd => trivial
  | read fd | close_read fd | create_pipe | load_write_fd | returned result failed => exact h
  | load_old_write_fd => exact hhalf h
  | close_write fd => exact ⟨h.1,hhalf h.2⟩
  | store_read_fd r w | store_write_fd w =>
    obtain ⟨p,hp⟩ := h
    exact ⟨p,hk.piped hp⟩
  | write fd =>
    obtain ⟨hfd,p,hp⟩ := h
    exact ⟨hfd,p,hk.piped hp⟩

theorem Process.Fits.aside {s s' : Process} {c : Validating} (h : s.Fits c)
    (hr : c.pc.replacing = false) (hw : c.pc.writing = false) (hs : s.Stored → s'.Stored) :
    s'.Fits c := by
  obtain ⟨access,pc⟩ := c
  cases pc with
  | load_read_fd | load_old_read_fd => trivial
  | read fd => exact Or.imp_right hs h
  | load_write_fd => exact hs h
  | returned result failed => exact h
  | close_read | load_old_write_fd | close_write | create_pipe | store_read_fd |
    store_write_fd => cases hr
  | write fd => cases hw

theorem Process.AtRest.keeps {s : Process} (h : s.AtRest) {table : Table}
    (hk : s.table.Keeps table) : Process.AtRest { s with table := table } := by
  rcases h with hp | ⟨p,hp⟩
  · exact Or.inl hp
  · exact Or.inr ⟨p,hk.piped hp⟩

theorem stored_of_get {s : Process} (hn : ∀ fd, fd < 0 → s.table.get fd = none) {e : End}
    (h : s.table.get s.MEM_VALIDATE_PIPE.read_fd = some e) : s.Stored := by
  intro hr
  rw [hr,hn (-1) (by decide)] at h
  cases h

theorem Validators.Sound.set {s : Validators} (h : s.Sound) {i : Nat} {c : Validating}
    (hi : s.threads[i]? = some c) {g : Process} {c' : Validating}
    (hneg : ∀ fd, fd < 0 → g.table.get fd = none) (hown : g.Fits c')
    (hothers : ∀ j d, j ≠ i → s.threads[j]? = some d → s.state.Fits d → g.Fits d)
    (hrep : c'.pc.replacing = true →
      c.pc.replacing = true ∨ ∀ d ∈ s.threads, d.pc.replacing = false)
    (htorn : c'.pc.torn = true → c.pc.torn = true ∨ ∀ d ∈ s.threads, d.pc.writing = false)
    (hwrite : c'.pc.writing = true → ∀ d ∈ s.threads, d.pc.torn = false)
    (hrest : (∀ d ∈ s.threads.set i c', d.pc.torn = false) → g.AtRest) :
    Validators.Sound ⟨g,s.threads.set i c'⟩ := by
  have hc := List.mem_of_getElem? hi
  refine ⟨hneg,h.fits.set hown hothers,h.one.set hi hrep,?_,hrest⟩
  intro x hx y hy ht
  rcases mem_set_or hx with rfl | ⟨j,-,hx⟩
  · rcases mem_set_or hy with rfl | ⟨k,-,hy⟩
    · exact not_writing_of_torn ht
    · have hy := List.mem_of_getElem? hy
      rcases htorn ht with hct | hnone
      · exact h.quiet c hc y hy hct
      · exact hnone y hy
  · have hxs := List.mem_of_getElem? hx
    rcases mem_set_or hy with rfl | ⟨k,-,hy⟩
    · by_contra hw
      have hxf := hwrite (by simpa using hw) x hxs
      rw [ht] at hxf
      cases hxf
    · exact h.quiet x hxs y (List.mem_of_getElem? hy) ht

theorem Validators.Sound.whole {s : Validators} (h : s.Sound) {i : Nat} {c : Validating}
    (hi : s.threads[i]? = some c) (hc : c.pc.replacing = true) (ht : c.pc.torn = false) :
    ∀ d ∈ s.threads, d.pc.torn = false := by
  intro d hd
  by_contra hdt
  have hdt : d.pc.torn = true := by simpa using hdt
  obtain ⟨j,hj⟩ := List.mem_iff_getElem?.mp hd
  obtain rfl := h.one j i d c hj hi (replacing_of_torn hdt) hc
  rw [hi] at hj
  cases hj
  rw [ht] at hdt
  cases hdt

theorem Validators.Sound.keeps {s : Validators} (h : s.Sound) {i : Nat} {c c' : Validating}
    (hi : s.threads[i]? = some c) {table : Table} (hk : s.state.table.Keeps table)
    (hown : Process.Fits { s.state with table := table } c')
    (hrep : c'.pc.replacing = true →
      c.pc.replacing = true ∨ ∀ d ∈ s.threads, d.pc.replacing = false)
    (htorn : c'.pc.torn = true → c.pc.torn = true)
    (hwrite : c'.pc.writing = true → ∀ d ∈ s.threads, d.pc.torn = false)
    (hrest : c.pc.torn = true → c'.pc.torn = false → s.state.NoPipe) :
    Validators.Sound ⟨{ s.state with table := table },s.threads.set i c'⟩ := by
  refine h.set hi (fun fd hfd => hk.negative fd hfd (h.negative fd hfd)) hown
    (fun j d _ _ hf => hf.keeps hk) hrep (fun ht => Or.inl (htorn ht)) hwrite ?_
  intro hq
  have hc' : c'.pc.torn = false := hq c' (mem_set_self hi c')
  cases hc : c.pc.torn with
  | true => exact Or.inl (hrest hc hc')
  | false =>
    refine (h.rest fun d hd => ?_).keeps hk
    rcases mem_set_other hi hd c' with rfl | hd
    · exact hc
    · exact hq d hd

theorem Validators.Sound.replace {s : Validators} (h : s.Sound) {i : Nat} {c c' : Validating}
    (hi : s.threads[i]? = some c) (hc : c.pc.replacing = true)
    (hquiet : ∀ d ∈ s.threads, d.pc.writing = false) {g : Process}
    (hneg : ∀ fd, fd < 0 → g.table.get fd = none) (hown : g.Fits c')
    (hstored : s.state.Stored → g.Stored) (hwrite : c'.pc.writing = false)
    (hrest : c'.pc.torn = false → g.AtRest) : Validators.Sound ⟨g,s.threads.set i c'⟩ := by
  refine h.set hi hneg hown ?_ (fun _ => Or.inl hc) (fun _ => Or.inr hquiet) ?_ ?_
  · intro j d hj hd hf
    refine hf.aside ?_ (hquiet d (List.mem_of_getElem? hd)) hstored
    by_contra hr
    exact hj (h.one j i d c hd hi (by simpa using hr) hc)
  · intro hw
    rw [hwrite] at hw
    cases hw
  · intro hq
    exact hrest (hq c' (mem_set_self hi c'))

section Steps
variable {capacity : Nat} {created : Option (Int × Int)} {foreign : Except Errno Nat}

theorem sound_read {s : Validators} (h : s.Sound) {i : Nat} {access : Access} {fd : Int}
    (hi : s.threads[i]? = some ⟨access,.read fd⟩) {g : Process} {c' : Validating}
    (hn : s.state.next capacity created foreign ⟨access,.read fd⟩ = some (g,c')) :
    Validators.Sound ⟨g,s.threads.set i c'⟩ := by
  obtain ⟨answer,table,hr⟩ : ∃ answer table,
      s.state.table.read fd CHECK_LENGTH foreign = (answer,table) := ⟨_,_,rfl⟩
  have hk : s.state.table.Keeps table := by
    have hfds := s.state.table.read_fds fd CHECK_LENGTH foreign
    rw [hr] at hfds
    exact .of_fds hfds
  have hfd : fd = -1 ∨ s.state.Stored := h.fits _ (List.mem_of_getElem? hi)
  have hanswer : fd = -1 → answer = .error .EBADF := by
    rintro rfl
    rw [Table.read_of_get_none (h.negative (-1) (by decide))] at hr
    cases hr
    rfl
  simp only [Process.next,hr] at hn
  cases hn
  have hold : Validators.Sound ⟨{ s.state with table := table },
      s.threads.set i ⟨access,.load_old_read_fd⟩⟩ :=
    h.keeps hi hk trivial nofun nofun nofun nofun
  have hnew : s.state.Stored → Validators.Sound ⟨{ s.state with table := table },
      s.threads.set i ⟨access,.load_write_fd⟩⟩ := fun hs =>
    h.keeps hi hk hs nofun nofun nofun nofun
  have hstored : answer ≠ .error .EBADF → s.state.Stored := fun ha =>
    hfd.resolve_left fun hone => ha (hanswer hone)
  cases answer with
  | ok bytes =>
    by_cases hb : 0 < bytes
    · simpa only [hb,if_true] using hnew (hstored nofun)
    · simpa only [hb,if_false] using hold
  | error err =>
    cases err with
    | EAGAIN => exact hnew (hstored nofun)
    | EBADF | EFAULT | EPIPE | other => exact hold

theorem sound_write {s : Validators} (h : s.Sound) {i : Nat} {access : Access} {fd : Int}
    (hi : s.threads[i]? = some ⟨access,.write fd⟩)
    (hroom : access.Readable → s.state.room capacity fd = true) {g : Process} {c' : Validating}
    (hn : s.state.next capacity created foreign ⟨access,.write fd⟩ = some (g,c')) :
    Validators.Sound ⟨g,s.threads.set i c'⟩ := by
  obtain ⟨answer,table,hw⟩ : ∃ answer table,
      s.state.table.write capacity fd access.slice foreign = (answer,table) := ⟨_,_,rfl⟩
  have hk : s.state.table.Keeps table := by
    have hfds := s.state.table.write_fds capacity fd access.slice foreign
    rw [hw] at hfds
    exact .of_fds hfds
  obtain ⟨rfl,p,hp⟩ : fd = _ ∧ s.state.Opened := h.fits _ (List.mem_of_getElem? hi)
  have hanswer : access.Readable → answer = .ok CHECK_LENGTH := by
    intro hr
    obtain ⟨bytes,hb,hlen⟩ := Access.slice_of_readable hr
    have hfree : (s.state.table.bytes p).length + bytes.length ≤ capacity := by
      have hroom := hroom hr
      rw [Process.room,hp.writer] at hroom
      rw [hlen]
      exact of_decide_eq_true hroom
    rw [hb,hp.write hfree,hlen] at hw
    cases hw
    rfl
  simp only [Process.next,hw] at hn
  cases hn
  refine h.keeps hi hk ?_ nofun nofun nofun nofun
  intro _ _ hr
  simp only [hanswer hr]
  decide

theorem sound_close_read {s : Validators} (h : s.Sound) {i : Nat} {access : Access} {fd : Int}
    (hi : s.threads[i]? = some ⟨access,.close_read fd⟩)
    (hquiet : ∀ d ∈ s.threads, d.pc.writing = false) :
    Validators.Sound ⟨{ s.state with table := s.state.table.close fd },
      s.threads.set i ⟨access,.load_old_write_fd⟩⟩ := by
  have hfd : fd = s.state.MEM_VALIDATE_PIPE.read_fd := h.fits _ (List.mem_of_getElem? hi)
  have hhalf : Process.HalfClosed { s.state with table := s.state.table.close fd } := by
    rcases h.rest (h.whole hi rfl rfl) with hp | ⟨p,hp⟩
    · exact Or.inl hp
    · have hstored : s.state.Stored := stored_of_get h.negative hp.reader
      refine Or.inr ⟨hstored,p,?_⟩
      have hne : s.state.MEM_VALIDATE_PIPE.write_fd ≠ fd := by
        intro hw
        have hr := hp.reader
        rw [← hfd,← hw,hp.writer] at hr
        cases hr
      rw [Table.get_close,if_neg hne]
      exact hp.writer
  refine h.replace hi rfl hquiet ?_ hhalf id rfl nofun
  intro k hk
  simp [h.negative k hk]

theorem sound_torn {s : Validators} (h : s.Sound) {i : Nat} {c : Validating}
    (hi : s.threads[i]? = some c) (hc : c.pc.torn = true) :
    ∀ d ∈ s.threads, d.pc.writing = false := fun d hd =>
  h.quiet c (List.mem_of_getElem? hi) d hd hc

theorem sound_create_pipe {s : Validators} (h : s.Sound) {i : Nat} {access : Access}
    (hi : s.threads[i]? = some ⟨access,.create_pipe⟩)
    (he : s.ApartAt capacity created ⟨access,.create_pipe⟩) {g : Process} {c' : Validating}
    (hn : s.state.next capacity created foreign ⟨access,.create_pipe⟩ = some (g,c')) :
    Validators.Sound ⟨g,s.threads.set i c'⟩ := by
  have hf : s.state.Fits ⟨access,.create_pipe⟩ := h.fits _ (List.mem_of_getElem? hi)
  simp only [Process.next] at hn
  cases hp : s.state.table.pipe created with
  | none =>
    simp only [hp] at hn
    cases hn
    have hnone : s.state.NoPipe := by
      refine hf.resolve_right fun hst => ?_
      have hcreated := he hst
      rw [hp] at hcreated
      cases hcreated
    exact h.keeps hi (.of_fds rfl) nofun nofun nofun nofun fun _ _ => hnone
  | some made =>
    obtain ⟨⟨r,w⟩,table⟩ := made
    simp only [hp] at hn
    cases hn
    exact h.keeps hi (Table.pipe_keeps hp) ⟨_,Table.pipe_piped hp⟩ (fun _ => Or.inl rfl)
      (fun _ => rfl) nofun nofun

theorem sound_go {s s' : Validators} (h : s.Sound) {i : Nat}
    (he : s.Apart capacity (.go i created foreign))
    (hs : s.go (Process.next capacity created foreign) i = some s') : Validators.Sound s' := by
  obtain ⟨⟨access,pc⟩,g,c',hi,hn,rfl⟩ := go_eq hs
  have hf : s.state.Fits ⟨access,pc⟩ := h.fits _ (List.mem_of_getElem? hi)
  have hsame : s.state.table.Keeps s.state.table := .of_fds rfl
  have he : s.ApartAt capacity created ⟨access,pc⟩ := he _ hi
  cases pc with
  | load_read_fd =>
    cases hn
    refine h.keeps hi hsame ?_ nofun nofun nofun nofun
    by_cases hr : s.state.MEM_VALIDATE_PIPE.read_fd = -1
    · exact Or.inl hr
    · exact Or.inr hr
  | read fd => exact sound_read h hi hn
  | load_old_read_fd =>
    cases hn
    exact h.keeps hi hsame rfl (fun _ => Or.inr he) nofun nofun nofun
  | close_read fd =>
    cases hn
    exact sound_close_read h hi he
  | load_old_write_fd =>
    cases hn
    exact h.keeps hi hsame ⟨rfl,hf⟩ (fun _ => Or.inl rfl) (fun _ => rfl) nofun nofun
  | close_write fd =>
    cases hn
    refine h.replace hi rfl (sound_torn h hi rfl) ?_ ?_ id rfl nofun
    · intro k hk
      simp [h.negative k hk]
    · exact hf.2.imp_right And.left
  | create_pipe => exact sound_create_pipe h hi he hn
  | store_read_fd r w =>
    cases hn
    obtain ⟨p,hp⟩ := hf
    have hr : r ≠ -1 := by
      rintro rfl
      have hneg := h.negative (-1) (by decide)
      rw [hp.reader] at hneg
      cases hneg
    exact h.replace hi rfl (sound_torn h hi rfl) h.negative ⟨p,hp⟩ (fun _ => hr) rfl nofun
  | store_write_fd w =>
    cases hn
    obtain ⟨p,hp⟩ := hf
    have hst : s.state.Stored := stored_of_get h.negative hp.reader
    exact h.replace hi rfl (sound_torn h hi rfl) h.negative hst id rfl fun _ => Or.inr ⟨p,hp⟩
  | load_write_fd =>
    cases hn
    have hopen : s.state.Opened := by
      refine (h.rest he).resolve_left fun hp => hf ?_
      rw [hp]
      rfl
    exact h.keeps hi hsame ⟨rfl,hopen⟩ nofun nofun (fun _ => he) nofun
  | write fd => exact sound_write h hi he hn
  | returned result failed => cases hn

end Steps

theorem Validators.Sound.foreign {s : Validators} (h : s.Sound) {table : Table}
    (hf : s.state.table.Foreign table) :
    Validators.Sound { s with state := { s.state with table := table } } where
  negative fd hfd := hf.negative fd hfd (h.negative fd hfd)
  fits c hc := (h.fits c hc).keeps hf.toKeeps
  one := h.one
  quiet := h.quiet
  rest hq := (h.rest hq).keeps hf.toKeeps

theorem Validators.Sound.call {s : Validators} (h : s.Sound) (access : Access) :
    Validators.Sound (s.spawn
      ⟨access,if access.addr = 0 then .returned false false else .load_read_fd⟩) := by
  have hnew : ∀ pc : ValidatePc, pc = (if access.addr = 0 then .returned false false
      else .load_read_fd) → pc.replacing = false ∧ pc.torn = false ∧ pc.writing = false := by
    rintro pc rfl
    split <;> exact ⟨rfl,rfl,rfl⟩
  obtain ⟨hrep,htorn,hwriting⟩ := hnew _ rfl
  refine ⟨h.negative,h.fits.spawn ?_,h.one.append hrep,?_,fun hq => h.rest fun c hc => ?_⟩
  · by_cases h0 : access.addr = 0
    · simp only [h0,if_true]
      exact fun _ hne => absurd h0 hne
    · simp only [h0,if_false]
      trivial
  · intro c hc d hd ht
    rcases List.mem_append.mp hc with hc | hc
    · rcases List.mem_append.mp hd with hd | hd
      · exact h.quiet c hc d hd ht
      · rw [List.mem_singleton.mp hd]
        exact hwriting
    · rw [List.mem_singleton.mp hc,htorn] at ht
      cases ht
  · exact hq c (List.mem_append_left _ hc)

theorem validators_step {capacity : Nat} (s : Validators) (l : ValidateStep) (s' : Validators)
    (h : s.Sound) (he : s.Apart capacity l) (hs : s.step capacity l = some s') : s'.Sound := by
  cases l with
  | call access =>
    cases hs
    exact h.call access
  | go i created foreign => exact sound_go h he hs
  | interrupt i =>
    simp only [Validators.step] at hs
    split at hs
    · cases hs
      exact h
    · cases hs
      exact h
    · cases hs
  | open_other fd =>
    obtain ⟨table,ht,rfl⟩ := Option.map_eq_some_iff.mp hs
    exact h.foreign (Table.open_other_foreign ht)
  | close_other fd =>
    obtain ⟨table,ht,rfl⟩ := Option.map_eq_some_iff.mp hs
    exact h.foreign (Table.close_other_foreign ht)

theorem Validators.Sound.allows {s : Validators} (h : s.Sound) : s.All Process.Allows := by
  intro c hc
  have hf := h.fits c hc
  obtain ⟨i,hi⟩ := List.mem_iff_getElem?.mp hc
  obtain ⟨access,pc⟩ := c
  cases pc with
  | close_read fd =>
    obtain rfl : fd = s.state.MEM_VALIDATE_PIPE.read_fd := hf
    rcases h.rest (h.whole hi rfl rfl) with hp | ⟨p,hp⟩
    · exact Or.inl (congrArg Pipes.read_fd hp)
    · exact Or.inr ⟨p,Or.inl hp.reader⟩
  | close_write fd =>
    obtain ⟨rfl,hp | ⟨-,p,hw⟩⟩ := hf
    · exact Or.inl (congrArg Pipes.write_fd hp)
    · exact Or.inr ⟨p,Or.inr hw⟩
  | write fd =>
    obtain ⟨rfl,p,hp⟩ := hf
    exact ⟨p,Or.inr hp.writer⟩
  | returned result failed => exact hf
  | load_read_fd | read | load_old_read_fd | load_old_write_fd | create_pipe | store_read_fd |
    store_write_fd | load_write_fd => trivial

/-- As long as calls keep apart, all they close and write to are ends of pipes of their own,
and they answer that memory is readable if it is. -/
theorem validators_own {capacity : Nat} {s₀ : Process} (h₀ : s₀.Unopened)
    {ls : List ValidateStep}
    (ha : Along (Validators.step capacity) (Validators.Apart capacity) ⟨s₀,[]⟩ ls)
    {s : Validators} (hrun : run (Validators.step capacity) ⟨s₀,[]⟩ ls = some s) :
    s.All Process.Allows := by
  have hs₀ : Validators.Sound ⟨s₀,[]⟩ := by
    refine ⟨h₀.negative,nofun,?_,nofun,fun _ => Or.inl h₀.pipe⟩
    intro i j p q hp
    simp at hp
  have hs : s.Sound := invariant_along validators_step hs₀ ha hrun
  exact hs.allows

def Access.readable : Access := ⟨4096,fun _ => some 7⟩

def ValidateStep.steps (i n : Nat) : List ValidateStep :=
  List.replicate n (.go i (some (3,4)) (.ok CHECK_LENGTH))

def ValidateStep.overlapping : List ValidateStep :=
  [.call .readable,.call .readable] ++ steps 1 2 ++ steps 0 10 ++ steps 1 4 ++
    [.open_other 3,.open_other 4]

/-- The second call closes the pipe of the first one, which then writes to what somebody else
has opened under the number. -/
theorem stranger_written_to :
    ∃ s c, run (Validators.step 65536) ⟨.started,[]⟩ ValidateStep.overlapping = some s ∧
      c ∈ s.threads ∧ c.pc = .write 4 ∧ s.state.table.get 4 = some .other ∧
      ¬ s.All Process.Allows := by
  obtain ⟨s,hs⟩ : ∃ s, run (Validators.step 65536) ⟨.started,[]⟩ ValidateStep.overlapping =
      some s := ⟨_,rfl⟩
  obtain ⟨hc,hget⟩ : (⟨.readable,.write 4⟩ : Validating) ∈ s.threads ∧
      s.state.table.get 4 = some .other := by
    cases hs
    exact ⟨List.mem_cons_self,rfl⟩
  refine ⟨s,_,hs,hc,rfl,hget,fun h => ?_⟩
  obtain ⟨p,hp | hp⟩ := h _ hc
  · rw [hget] at hp
    cases hp
  · rw [hget] at hp
    cases hp

def ValidateStep.in_turn : List ValidateStep :=
  [.call .readable,.call .readable] ++ steps 1 2 ++ steps 0 11 ++ [.open_other 5] ++ steps 1 9

theorem validators_own_in_turn :
    ∃ s, run (Validators.step 65536) ⟨.started,[]⟩ ValidateStep.in_turn = some s ∧
      s.All Process.Allows ∧ s.state.table.pipes = 2 := by
  have ha : Along (Validators.step 65536) (Validators.Apart 65536) ⟨.started,[]⟩
      ValidateStep.in_turn := by decide +kernel
  obtain ⟨s,hs⟩ : ∃ s, run (Validators.step 65536) ⟨.started,[]⟩ ValidateStep.in_turn =
      some s := ⟨_,rfl⟩
  have hpipes : s.state.table.pipes = 2 := by
    cases hs
    rfl
  exact ⟨s,hs,validators_own Process.started_unopened ha hs,hpipes⟩

end Pprof
