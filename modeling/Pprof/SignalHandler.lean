import Pprof.SafeWalks
import Pprof.SampleLimits
import Pprof.ThreadName
set_option autoImplicit false

/-! `perf_signal_handler` from its first line to its return, in the process and the thread that
it interrupts. What can end the process there is known exactly, and a run that returns is one
of the model in which the walk is given. -/

namespace Pprof
open ByteMemory Descriptors Memory Runs

structure Comm where
  bytes : List UInt8
  nonzero : 0 ∉ bytes
  short : bytes.length < MAX_THREAD_NAME

/-- `pthread_getname_np`: whether it returned zero, and the buffer. -/
def pthread_getname_np (comm : Option Comm) (name : List UInt8) : Bool × List UInt8 :=
  match comm with
  | some comm => (true,comm.bytes ++ 0 :: name.drop (comm.bytes.length+1))
  | none => (false,name)

def write_thread_name (current_thread : UInt64) (comm : Option Comm) (name : List UInt8) :
    Except Panic (List UInt8) :=
  match pthread_getname_np comm name with
  | (true,name) => .ok name
  | (false,name) => write_thread_name_fallback current_thread name

structure ErrnoProtector where
  saved : Int32

def ErrnoProtector.new (errno : Int32) : ErrnoProtector := ⟨errno⟩

def ErrnoProtector.drop (e : ErrnoProtector) (_errno : Int32) : Int32 := e.saved

/-- What ends the process. A panic cannot leave an `extern "C"` function, and a name that does
not end in its buffer is read beyond it. -/
inductive Crash where
  | fault (fault : Fault)
  | abort (panic : Panic)
  | overread
  deriving DecidableEq

/-- What a run of the handler meets: the lock, the context, what the calls of `validate` find,
the thread, the time, what becomes of a write to the file, and `errno`, at the start and as
the calls of the handler leave it. -/
structure Interruption where
  unlocked : Bool
  ucontext : Option SignalContext
  moments : Nat → Moment
  current_thread : UInt64
  comm : Option Comm
  sample_timestamp : SystemTime
  fault : Option Nat
  errno : Int32
  disturbed : Int32

def Interruption.addr (at_ : Interruption) : Option UInt64 := at_.ucontext.map SignalContext.addr

def Interruption.name (at_ : Interruption) : Except Crash (List UInt8) :=
  match write_thread_name at_.current_thread at_.comm zeroed with
  | .error panic => .error (.abort panic)
  | .ok name =>
    match from_ptr name with
    | none => .error .overread
    | some name => .ok name

inductive TraceImpl (σ : Type) where
  | frame_pointer
  | framehop (unwinder : Option (AskingUnwinder σ))

def TraceImpl.trace {σ S : Type} (impl : TraceImpl σ) (capacity : Nat) (moments : Nat → Moment)
    (cb : IpFrame → S → Bool × S) (n : Nat) (s : Process) (ucontext : Option SignalContext)
    (c : S) : Option (Except Fault (S × Process)) :=
  match impl with
  | .frame_pointer => Process.trace capacity moments cb n s ucontext c
  | .framehop unwinder => Process.iter_frames capacity moments unwinder cb n s ucontext c

section Handler
variable [Layout (Entry (UnresolvedFrames IpFrame))] [Target] [Symbolizer] [DefaultHasher]
variable {σ : Type}

def Profiler.take (p : Profiler IpFrame) (at_ : Interruption) (bt : List IpFrame) :
    Except Crash (Profiler IpFrame) :=
  match at_.name with
  | .error crash => .error crash
  | .ok name =>
    match p.sample bt name at_.current_thread at_.sample_timestamp at_.fault with
    | .error panic => .error (.abort panic)
    | .ok p => .ok p

def Process.sample (capacity : Nat) (impl : TraceImpl σ) (n : Nat) (s : Process)
    (p : Profiler IpFrame) (at_ : Interruption) :
    Option (Except Crash (Profiler IpFrame × Process)) :=
  if at_.addr.any p.is_blocklisted then some (.ok (p,s))
  else
    match impl.trace capacity at_.moments p.callback n s at_.ucontext ([],0) with
    | none => none
    | some (.error fault) => some (.error (.fault fault))
    | some (.ok ((bt,_),s)) =>
      match p.take at_ bt with
      | .error crash => some (.error crash)
      | .ok p => some (.ok (p,s))

/-- The handler, with what `try_write` gave it. It returns the profiler, if it had the lock,
and `errno`. -/
def Process.perf_signal_handler (capacity : Nat) (impl : TraceImpl σ) (n : Nat) (s : Process)
    (guard : Option (Except Error (Profiler IpFrame))) (at_ : Interruption) :
    Option (Except Crash (Option (Except Error (Profiler IpFrame)) × Process × Int32)) :=
  let _errno := ErrnoProtector.new at_.errno
  match guard with
  | some (.ok p) =>
    match s.sample capacity impl n p at_ with
    | none => none
    | some (.error crash) => some (.error crash)
    | some (.ok (p,s)) => some (.ok (some (.ok p),s,_errno.drop at_.disturbed))
  | guard => some (.ok (guard,s,_errno.drop at_.errno))

def Process.interrupted (capacity : Nat) (impl : TraceImpl σ) (n : Nat) (s : Process)
    (p : Profiler IpFrame) (at_ : Interruption) : Interrupted IpFrame where
  addr := at_.addr
  trace :=
    match impl.trace capacity at_.moments p.callback n s at_.ucontext ([],0) with
    | some (.ok ((bt,_),_)) => bt
    | _ => []
  thread_name := at_.name.toOption.getD []
  thread_id := at_.current_thread
  sample_timestamp := at_.sample_timestamp

end Handler

section Names

theorem named_by_comm (current_thread : UInt64) (comm : Comm) :
    write_thread_name current_thread (some comm) zeroed =
      .ok (comm.bytes ++ 0 :: zeroed.drop (comm.bytes.length+1)) := rfl

theorem from_ptr_terminated {bytes : List UInt8} (h : 0 ∉ bytes) (rest : List UInt8) :
    from_ptr (bytes ++ 0 :: rest) = some bytes := by
  have hne : ∀ b ∈ bytes, (b != 0) = true := by
    intro b hb
    simp only [bne_iff_ne,ne_eq]
    rintro rfl
    exact h hb
  rw [from_ptr,if_pos (by simp),List.takeWhile_append_of_pos hne]
  simp

theorem name_cases (at_ : Interruption) :
    (at_.comm = none ∧ 10^(MAX_THREAD_NAME-1) < at_.current_thread.toNat ∧
      at_.name = .error .overread) ∨
    ¬ (at_.comm = none ∧ 10^(MAX_THREAD_NAME-1) < at_.current_thread.toNat) ∧
      ∃ name, at_.name = .ok name ∧ name.length ≤ MAX_THREAD_NAME := by
  unfold Interruption.name
  cases hcomm : at_.comm with
  | some comm =>
    refine .inr ⟨by simp,comm.bytes,?_,Nat.le_of_lt comm.short⟩
    simp only [named_by_comm,from_ptr_terminated comm.nonzero]
  | none =>
    obtain ⟨n,hn,hcounted⟩ := fallback_eq at_.current_thread
    have hfits := hcounted.fits
    have hlt := hcounted.lt_iff
    simp only [write_thread_name,pthread_getname_np,hn,from_ptr_padded (digits_ne _ _)]
    by_cases hfull : n = MAX_THREAD_NAME
    · refine .inl ⟨trivial,Nat.lt_of_not_le fun hle => ?_,?_⟩
      · have hless := hlt.mpr hle
        omega
      · rw [hfull,Nat.sub_self,if_pos rfl]
    · refine .inr ⟨fun hlong => ?_,
        (Digits.places 10 at_.current_thread.toNat n).map fun d => digitByte d.digitChar,?_,?_⟩
      · have hle := hlt.mp (by omega)
        omega
      · rw [if_neg (by omega)]
      · simpa using hfits

end Names

section Returns
variable [Layout (Entry (UnresolvedFrames IpFrame))] [Target] [Symbolizer] [DefaultHasher]
variable {σ : Type} {capacity pipes n : Nat} {s : Process} {p : Profiler IpFrame} {slack : Nat}

theorem take_cases (h : p.Tallied slack) (hslack : slack ≤ 2^31) (at_ : Interruption)
    (bt : List IpFrame) :
    ((at_.comm = none ∧ 10^(MAX_THREAD_NAME-1) < at_.current_thread.toNat ∨
        p.sample_counter = 2^31-1) ∧
      (p.take at_ bt = .error .overread ∨ ∃ panic, p.take at_ bt = .error (.abort panic))) ∨
    ¬ (at_.comm = none ∧ 10^(MAX_THREAD_NAME-1) < at_.current_thread.toNat ∨
        p.sample_counter = 2^31-1) ∧
      ∃ name p', at_.name = .ok name ∧ p.take at_ bt = .ok p' ∧
        p.sample bt name at_.current_thread at_.sample_timestamp at_.fault = .ok p' := by
  unfold Profiler.take
  rcases name_cases at_ with ⟨hcomm,hlong,hname⟩ | ⟨hnamed,name,hname,hlen⟩
  · exact .inl ⟨.inl ⟨hcomm,hlong⟩,.inl (by simp only [hname])⟩
  · have hok := h.sample_ok_iff hslack bt hlen at_.current_thread at_.sample_timestamp at_.fault
    simp only [hname]
    cases hs : p.sample bt name at_.current_thread at_.sample_timestamp at_.fault with
    | error panic =>
      have hmax : p.sample_counter = 2^31-1 := by
        by_contra hne
        obtain ⟨p',hp'⟩ := hok.mpr hne
        rw [hs] at hp'
        cases hp'
      exact .inl ⟨.inr hmax,.inr ⟨panic,rfl⟩⟩
    | ok p' => exact .inr ⟨not_or.mpr ⟨hnamed,hok.mp ⟨p',hs⟩⟩,name,p',rfl,rfl,hs⟩

omit [DefaultHasher] in
theorem walk_captures (hcap : CHECK_LENGTH ≤ capacity) (hn : MAX_DEPTH < n)
    (h : s.Sound pipes) (impl : TraceImpl σ) (moments : Nat → Moment)
    (ctx : Option SignalContext) (p : Profiler IpFrame) :
    ∃ bt s', impl.trace capacity moments p.callback n s ctx ([],0) =
      some (.ok ((bt,bt.length),s')) ∧ p.capture 0 bt = bt ∧ s'.Sound pipes := by
  cases impl with
  | frame_pointer =>
    obtain ⟨bt,-,-,s',htrace,hcapture,hs',-⟩ := trace_captures hcap moments h ctx p hn
    exact ⟨bt,s',htrace,hcapture,hs'⟩
  | framehop unwinder => exact iter_frames_captures hcap moments h ctx p hn unwinder

/-- The ways to crash: a thread without a name whose id is too long for the buffer, and a sample
more than can be counted. -/
def Interruption.Fatal (at_ : Interruption) (p : Profiler IpFrame) : Prop :=
  at_.unlocked = true ∧ at_.addr.any p.is_blocklisted = false ∧
    (at_.comm = none ∧ 10^(MAX_THREAD_NAME-1) < at_.current_thread.toNat ∨
      p.sample_counter = 2^31-1)

theorem handler_spec (hcap : CHECK_LENGTH ≤ capacity) (hn : MAX_DEPTH < n) (h : s.Sound pipes)
    (ht : p.Tallied slack) (hslack : slack ≤ 2^31) (impl : TraceImpl σ) (at_ : Interruption) :
    ∃ r, s.perf_signal_handler capacity impl n (if at_.unlocked then some (.ok p) else none) at_ =
        some r ∧ ((∃ crash, r = .error crash) ↔ at_.Fatal p) ∧
      (∀ fault, r ≠ .error (.fault fault)) ∧
      ∀ guard s' errno, r = .ok (guard,s',errno) → errno = at_.errno ∧ s'.Sound pipes ∧
        (at_.unlocked = false → guard = none) ∧
        (at_.unlocked = true → ∃ profiler, guard = some profiler ∧
          perf_signal_handler (.ok p) (s.interrupted capacity impl n p at_) at_.fault =
            .ok profiler) := by
  unfold Process.perf_signal_handler
  cases hu : at_.unlocked with
  | false =>
    refine ⟨_,rfl,by simp [Interruption.Fatal,hu],by simp,?_⟩
    rintro guard s' errno heq
    cases heq
    exact ⟨rfl,h,fun _ => rfl,by simp⟩
  | true =>
    obtain ⟨bt,s₁,hwalk,hcapture,hs₁⟩ := walk_captures hcap hn h impl at_.moments at_.ucontext p
    have htrace : (s.interrupted capacity impl n p at_).trace = bt := by
      simp only [Process.interrupted,hwalk]
    have haddr : (s.interrupted capacity impl n p at_).addr = at_.addr := rfl
    simp only [Process.sample,perf_signal_handler,hwalk,htrace,hcapture,haddr,if_true]
    cases hb : at_.addr.any p.is_blocklisted with
    | true =>
      refine ⟨_,rfl,by simp [Interruption.Fatal,hb],by simp,?_⟩
      rintro guard s' errno heq
      cases heq
      exact ⟨rfl,h,by simp,fun _ => ⟨.ok p,rfl,rfl⟩⟩
    | false =>
      rcases take_cases ht hslack at_ bt with ⟨hfatal,htake⟩ | ⟨hfine,name,p',hname,htake,hsample⟩
      · rcases htake with htake | ⟨panic,htake⟩
        · exact ⟨.error .overread,by simp [htake],⟨fun _ => ⟨hu,hb,hfatal⟩,fun _ => ⟨_,rfl⟩⟩,
            by simp,by simp⟩
        · exact ⟨.error (.abort panic),by simp [htake],
            ⟨fun _ => ⟨hu,hb,hfatal⟩,fun _ => ⟨_,rfl⟩⟩,by simp,by simp⟩
      · refine ⟨.ok (some (.ok p'),s₁,at_.errno),by simp [htake,ErrnoProtector.drop,
          ErrnoProtector.new],⟨by simp,fun hfatal => absurd hfatal.2.2 hfine⟩,by simp,?_⟩
        rintro guard s' errno heq
        cases heq
        refine ⟨rfl,hs₁,by simp,fun _ => ⟨.ok p',rfl,?_⟩⟩
        have hthread : (s.interrupted capacity impl n p at_).thread_name = name := by
          simp [Process.interrupted,hname,Except.toOption]
        rw [hthread]
        exact bind_eq_ok.mpr ⟨p',hsample,rfl⟩

omit [DefaultHasher] in
theorem interrupted_bounded (hcap : CHECK_LENGTH ≤ capacity) (hn : MAX_DEPTH < n)
    (h : s.Sound pipes) (impl : TraceImpl σ) (at_ : Interruption) (p : Profiler IpFrame) :
    (s.interrupted capacity impl n p at_).trace.length ≤ MAX_DEPTH := by
  obtain ⟨bt,s₁,hwalk,hcapture,-⟩ := walk_captures hcap hn h impl at_.moments at_.ucontext p
  simp only [Process.interrupted,hwalk]
  exact length_of_captured hcapture

end Returns

section Whole
variable [Layout (Entry (UnresolvedFrames IpFrame))] [Target] [Symbolizer] [DefaultHasher]
variable {σ : Type}

structure System where
  world : World IpFrame
  process : Process

/-- The calls of the profiler, what other threads do to descriptors, and the signals. A signal
that comes while a call has the lock finds it taken. -/
inductive SystemEvent where
  | call (op : Op IpFrame)
  | aside (e : ValidateEvent)
  | signal (at_ : Interruption)

def System.step (capacity : Nat) (impl : TraceImpl σ) (n : Nat) (c : System) :
    SystemEvent → Option System
  | .call (.signal _ _) => none
  | .call op => (c.world.step op).map fun world => { c with world }
  | .aside e => (c.process.step capacity e).map fun process => { c with process }
  | .signal at_ =>
    match c.world.PROFILER with
    | none => none
    | some profiler =>
      if c.world.os.sigprof.handler = .perf_signal_handler then
        match c.process.perf_signal_handler capacity impl n
            (if at_.unlocked then some profiler else none) at_ with
        | some (.ok (guard,process,_)) =>
          some ⟨{ c.world with PROFILER := some (guard.getD profiler) },process⟩
        | _ => none
      else none

def System.ops (capacity : Nat) (impl : TraceImpl σ) (n : Nat) (c : System) :
    SystemEvent → List (Op IpFrame)
  | .call op => [op]
  | .aside _ => []
  | .signal at_ =>
    match c.world.PROFILER with
    | some (.ok p) =>
      if at_.unlocked then [.signal (c.process.interrupted capacity impl n p at_) at_.fault]
      else []
    | _ => []

structure System.Sound (c : System) (pipes : Nat) : Prop where
  process : c.process.Sound pipes
  world : c.world.Bounded

variable {capacity pipes n : Nat} {impl : TraceImpl σ}

theorem system_signal (hcap : CHECK_LENGTH ≤ capacity) (hn : MAX_DEPTH < n) {c c' : System}
    (h : c.Sound pipes) {at_ : Interruption}
    (hs : c.step capacity impl n (.signal at_) = some c') :
    c'.process.Sound pipes ∧
      run World.step c.world (c.ops capacity impl n (.signal at_)) = some c'.world := by
  obtain ⟨world,process⟩ := c
  obtain ⟨PROFILER,os,guards⟩ := world
  cases PROFILER with
  | none => cases hs
  | some profiler =>
    simp only [System.step] at hs
    split at hs
    · rename_i hhandler
      cases profiler with
      | error err =>
        have hres : process.perf_signal_handler capacity impl n
            (if at_.unlocked then some (.error err) else none) at_ =
            some (.ok ((if at_.unlocked then some (.error err) else none),process,at_.errno)) := by
          cases at_.unlocked <;> rfl
        have hsame : (if at_.unlocked = true then some (Except.error err : Except Error
            (Profiler IpFrame)) else none).getD (.error err) = .error err := by split <;> rfl
        rw [hres] at hs
        cases hs
        exact ⟨h.process,by simp [System.ops,hsame]⟩
      | ok p =>
        obtain ⟨r,hr,-,-,hok⟩ := handler_spec hcap hn h.process (h.world.tallied p rfl)
          (Nat.le_refl _) impl at_
        rw [hr] at hs
        cases r with
        | error crash => cases hs
        | ok r =>
          obtain ⟨guard,s',errno⟩ := r
          cases hs
          obtain ⟨-,hs',hlocked,hunlocked⟩ := hok guard s' errno rfl
          refine ⟨hs',?_⟩
          simp only [System.ops]
          cases hu : at_.unlocked with
          | false =>
            rw [hlocked hu]
            rfl
          | true =>
            obtain ⟨profiler,rfl,hh⟩ := hunlocked hu
            simp only [if_true,run_cons,World.step,hhandler,hh]
            rfl
    · cases hs

theorem system_signal_taken (impl : TraceImpl σ) (hcap : CHECK_LENGTH ≤ capacity)
    (hn : MAX_DEPTH < n) {c : System} (h : c.Sound pipes) {p : Profiler IpFrame}
    (hp : c.world.PROFILER = some (.ok p))
    (hhandler : c.world.os.sigprof.handler = .perf_signal_handler) {at_ : Interruption}
    (hfine : ¬ at_.Fatal p) :
    ∃ c', c.step capacity impl n (.signal at_) = some c' := by
  obtain ⟨r,hr,hcrash,-⟩ := handler_spec hcap hn h.process (h.world.tallied p hp)
    (Nat.le_refl _) impl at_
  cases r with
  | error crash => exact absurd (hcrash.mp ⟨crash,rfl⟩) hfine
  | ok r =>
    exact ⟨⟨{ c.world with PROFILER := some (r.1.getD (.ok p)) },r.2.1⟩,by
      simp only [System.step,hp,hhandler,if_true,hr]⟩

theorem system_step (hcap : CHECK_LENGTH ≤ capacity) (hn : MAX_DEPTH < n) (c : System)
    (e : SystemEvent) (c' : System) (h : c.Sound pipes)
    (hs : c.step capacity impl n e = some c') :
    c'.Sound pipes ∧ run World.step c.world (c.ops capacity impl n e) = some c'.world := by
  have hworld : ∀ {ops}, run World.step c.world ops = some c'.world → c'.world.Bounded :=
    fun hr => Reachable.invariant bounded_step h.world ⟨_,hr⟩
  cases e with
  | call op =>
    have hop : ∃ w, c.world.step op = some w ∧ c' = { c with world := w } := by
      cases op with
      | signal at_ fault => cases hs
      | build b faults now =>
        obtain ⟨w,hw,rfl⟩ := Option.map_eq_some_iff.mp hs
        exact ⟨w,hw,rfl⟩
      | drop i faults =>
        obtain ⟨w,hw,rfl⟩ := Option.map_eq_some_iff.mp hs
        exact ⟨w,hw,rfl⟩
      | report i =>
        obtain ⟨w,hw,rfl⟩ := Option.map_eq_some_iff.mp hs
        exact ⟨w,hw,rfl⟩
      | sigaction act =>
        cases hs
        exact ⟨_,rfl,rfl⟩
    obtain ⟨w,hw,rfl⟩ := hop
    have hr : run World.step c.world [op] = some w := run_cons_some hw []
    exact ⟨⟨h.process,hworld hr⟩,hr⟩
  | aside e =>
    obtain ⟨process,hp,rfl⟩ := Option.map_eq_some_iff.mp hs
    exact ⟨⟨sound_step hcap c.process e process h.process hp,h.world⟩,rfl⟩
  | signal at_ =>
    obtain ⟨hp,hr⟩ := system_signal hcap hn h hs
    exact ⟨⟨hp,hworld hr⟩,hr⟩

theorem system_sound {w₀ : World IpFrame} (h₀ : w₀.Fresh) {s₀ : Process} (hs₀ : s₀.Unopened) :
    (⟨w₀,s₀⟩ : System).Sound s₀.table.pipes := ⟨.unopened hs₀ rfl,bounded_fresh h₀⟩

/-- In every state that the process can be in, whatever a signal interrupts: the handler returns,
unless the thread has no name and an id of more than fifteen digits or as many samples were
taken as can be counted. It never faults, and if it returns, `errno` is what it was and the
pipe of `validate` is in order. -/
theorem handler_crashes_iff (hcap : CHECK_LENGTH ≤ capacity) (hn : MAX_DEPTH < n)
    {w₀ : World IpFrame} (h₀ : w₀.Fresh) {s₀ : Process} (hs₀ : s₀.Unopened)
    {es : List SystemEvent} {c : System}
    (hr : run (System.step capacity impl n) ⟨w₀,s₀⟩ es = some c) {p : Profiler IpFrame}
    (hp : c.world.PROFILER = some (.ok p)) (at_ : Interruption) :
    ∃ r, c.process.perf_signal_handler capacity impl n
        (if at_.unlocked then some (.ok p) else none) at_ = some r ∧
      ((∃ crash, r = .error crash) ↔ at_.unlocked = true ∧
        at_.addr.any p.is_blocklisted = false ∧
        (at_.comm = none ∧ 10^(MAX_THREAD_NAME-1) < at_.current_thread.toNat ∨
          p.sample_counter = 2^31-1)) ∧
      (∀ fault, r ≠ .error (.fault fault)) ∧
      ∀ guard s errno, r = .ok (guard,s,errno) →
        errno = at_.errno ∧ s.Sound s₀.table.pipes := by
  obtain ⟨hs,-⟩ := run_trail (fun c e c' => system_step hcap hn c e c') (system_sound h₀ hs₀) hr
  obtain ⟨r,hres,hfatal,hfault,hok⟩ := handler_spec hcap hn hs.process (hs.world.tallied p hp)
    (Nat.le_refl _) impl at_
  refine ⟨r,hres,hfatal,hfault,fun guard s errno heq => ?_⟩
  obtain ⟨herrno,hsound,-⟩ := hok guard s errno heq
  exact ⟨herrno,hsound⟩

omit [DefaultHasher] in
theorem interrupted_name (s : Process) (impl : TraceImpl σ) (at_ : Interruption)
    (p : Profiler IpFrame) :
    (s.interrupted capacity impl n p at_).thread_name.length ≤ MAX_THREAD_NAME := by
  rcases name_cases at_ with ⟨-,-,hname⟩ | ⟨-,name,hname,hlen⟩
  · simp [Process.interrupted,hname,Except.toOption]
  · simpa [Process.interrupted,hname,Except.toOption] using hlen

/-- A run of the whole is a run of the model in which each signal comes with the frames that its
walk is to find and the name of its thread, which both fit into a sample. -/
theorem system_refines (hcap : CHECK_LENGTH ≤ capacity) (hn : MAX_DEPTH < n)
    {w₀ : World IpFrame} (h₀ : w₀.Fresh) {s₀ : Process} (hs₀ : s₀.Unopened)
    {es : List SystemEvent} {c : System}
    (hr : run (System.step capacity impl n) ⟨w₀,s₀⟩ es = some c) :
    let ops := trail (System.step capacity impl n) (System.ops capacity impl n) ⟨w₀,s₀⟩ es
    run World.step w₀ ops = some c.world ∧ c.process.Sound s₀.table.pipes ∧
      ∀ at_ fault, .signal at_ fault ∈ ops →
        at_.trace.length ≤ MAX_DEPTH ∧ at_.thread_name.length ≤ MAX_THREAD_NAME := by
  have hsound := system_sound h₀ hs₀
  obtain ⟨hs,hrun⟩ := run_trail (fun c e c' => system_step hcap hn c e c') hsound hr
  refine ⟨hrun,hs.process,fun at_ fault hmem => ?_⟩
  obtain ⟨d,e,d',hd,hstep,hop⟩ := mem_trail hr hmem
  have hd := hd.invariant (fun c e c' h hs => (system_step hcap hn c e c' h hs).1) hsound
  cases e with
  | call op =>
    obtain rfl := List.mem_singleton.mp hop
    cases hstep
  | aside e => cases hop
  | signal it =>
    simp only [System.ops] at hop
    split at hop
    · rename_i p hp
      split at hop
      · cases List.mem_singleton.mp hop
        exact ⟨interrupted_bounded hcap hn hd.process impl it p,
          interrupted_name d.process impl it p⟩
      · cases hop
    · cases hop

end Whole

section Plain

def openWorld [Layout (Entry (UnresolvedFrames IpFrame))] [Target] : World IpFrame :=
  ⟨none,plainOs,[]⟩

theorem openWorld_fresh [Layout (Entry (UnresolvedFrames IpFrame))] [Target] :
    openWorld.Fresh := ⟨rfl,nofun,rfl,rfl⟩

def plainBuild : Op IpFrame := .build ProfilerGuardBuilder.default ⟨false,false⟩ plainClock

theorem openWorld_build [Layout (Entry (UnresolvedFrames IpFrame))] [Target] [Symbolizer]
    [DefaultHasher] :
    ∃ w p, (openWorld : World IpFrame).step plainBuild = some w ∧ w.PROFILER = some (.ok p) ∧
      w.os.sigprof.handler = .perf_signal_handler ∧ p.blocklist_segments = [] ∧
      p.sample_counter = 0 ∧ w.guards.length = 1 := by
  obtain ⟨p,hp⟩ := profiler_new (F := IpFrame)
  have ht : trigger_lazy (openWorld : World IpFrame).PROFILER
      (⟨false,false⟩ : BuildFaults).create = .ok p := hp
  have hidle : p.running = false := by
    cases hp
    rfl
  have hcount : p.sample_counter = 0 := by
    cases hp
    rfl
  obtain ⟨timer,hb⟩ := build_guard (b := ProfilerGuardBuilder.default) ht hidle rfl (by decide)
    plainClock
  have hs : (openWorld : World IpFrame).step plainBuild = some ⟨
      some (.ok (ProfilerGuardBuilder.default.started p plainOs)),
      Os.setitimer { plainOs with
        sigprof := (ProfilerGuardBuilder.default.configure p).handlerAction }
        ⟨interval 99,interval 99⟩,[⟨some timer⟩]⟩ := by
    simp only [plainBuild,World.step,hb]
    rfl
  exact ⟨_,_,hs,rfl,rfl,rfl,hcount,rfl⟩

def nameless : Interruption :=
  ⟨true,some (interruptedAt 1000 4097),busyMoments,1000000000000001,none,⟨0,0⟩,none,4,11⟩

theorem handler_crashes_iff_nameless :
    letI := plainTarget
    letI := plainHasher
    letI : Symbolizer := ⟨id,fun _ => []⟩
    letI : Layout (Entry (UnresolvedFrames IpFrame)) := indexedLayout _ 1096 (Nat.succ_pos 1095)
    ∃ (c : System) (p : Profiler IpFrame) (crash : Crash),
      run (System.step 65536 (TraceImpl.framehop (some askingChained)) 129)
        ⟨openWorld,.started⟩ [.aside (.open_other 9),.call plainBuild] = some c ∧
      c.world.PROFILER = some (.ok p) ∧
      c.process.perf_signal_handler 65536 (TraceImpl.framehop (some askingChained)) 129
        (some (.ok p)) nameless = some (.error crash) ∧ crash ≠ .fault .SIGSEGV := by
  let _ := plainTarget
  let _ := plainHasher
  let _ : Symbolizer := ⟨id,fun _ => []⟩
  let _ : Layout (Entry (UnresolvedFrames IpFrame)) := indexedLayout _ 1096 (Nat.succ_pos 1095)
  obtain ⟨w,p,hw,hp,-,hblock,-⟩ := openWorld_build
  obtain ⟨s,hs⟩ : ∃ s, Process.started.step 65536 (.open_other 9) = some s := ⟨_,rfl⟩
  have hcall : System.step 65536 (TraceImpl.framehop (some askingChained)) 129 ⟨openWorld,s⟩
      (.call plainBuild) = some ⟨w,s⟩ := by
    simp only [System.step,plainBuild]
    rw [← plainBuild,hw]
    rfl
  have haside : System.step 65536 (TraceImpl.framehop (some askingChained)) 129
      ⟨openWorld,.started⟩ (.aside (.open_other 9)) = some ⟨openWorld,s⟩ := by
    simp only [System.step,hs]
    rfl
  have hrun : run (System.step 65536 (TraceImpl.framehop (some askingChained)) 129)
      ⟨openWorld,.started⟩ [.aside (.open_other 9),.call plainBuild] = some ⟨w,s⟩ :=
    (run_cons_some haside _).trans (run_cons_some hcall [])
  obtain ⟨r,hr,hcrash,hfault,-⟩ := handler_crashes_iff (by decide) (by decide)
    openWorld_fresh Process.started_unopened hrun hp nameless
  obtain ⟨crash,rfl⟩ := hcrash.mpr ⟨rfl,by
    simp [nameless,Interruption.addr,Profiler.is_blocklisted,hblock],.inl ⟨rfl,by decide⟩⟩
  exact ⟨_,p,crash,hrun,hp,hr,fun heq => hfault .SIGSEGV (by rw [heq])⟩

def ordinary : Interruption :=
  ⟨true,some (interruptedAt 1000 4097),busyMoments,7,some ⟨[97],by decide,by decide⟩,⟨0,0⟩,none,
    4,11⟩

theorem system_refines_ordinary :
    letI := plainTarget
    letI := plainHasher
    letI : Symbolizer := ⟨id,fun _ => []⟩
    letI : Layout (Entry (UnresolvedFrames IpFrame)) := indexedLayout _ 1096 (Nat.succ_pos 1095)
    ∃ (c : System) (at_ : Interrupted IpFrame),
      run (System.step 65536 (.frame_pointer : TraceImpl Unit) 129) ⟨openWorld,.started⟩
        [.call plainBuild,.aside (.open_other 9),.signal ordinary] = some c ∧
      run World.step openWorld [plainBuild,.signal at_ none] = some c.world ∧
      at_.trace.length ≤ 128 := by
  let _ := plainTarget
  let _ := plainHasher
  let _ : Symbolizer := ⟨id,fun _ => []⟩
  let _ : Layout (Entry (UnresolvedFrames IpFrame)) := indexedLayout _ 1096 (Nat.succ_pos 1095)
  obtain ⟨w,p,hw,hp,hhandler,-,hcount,-⟩ := openWorld_build
  obtain ⟨s,hs⟩ : ∃ s, Process.started.step 65536 (.open_other 9) = some s := ⟨_,rfl⟩
  have hsound : System.Sound ⟨w,s⟩ 0 :=
    ⟨sound_step (by decide : CHECK_LENGTH ≤ 65536) _ _ s
      (.unopened Process.started_unopened rfl) hs,
      bounded_step _ _ _ (bounded_fresh openWorld_fresh) hw⟩
  have hfine : ¬ ordinary.Fatal p := by simp [Interruption.Fatal,ordinary,hcount]
  obtain ⟨c,hsignal⟩ := system_signal_taken (.frame_pointer : TraceImpl Unit) (n := 129)
    (by decide : CHECK_LENGTH ≤ 65536) (by decide) hsound hp hhandler hfine
  have hcall : System.step 65536 (.frame_pointer : TraceImpl Unit) 129 ⟨openWorld,.started⟩
      (.call plainBuild) = some ⟨w,.started⟩ := by
    simp only [System.step,plainBuild]
    rw [← plainBuild,hw]
    rfl
  have haside : System.step 65536 (.frame_pointer : TraceImpl Unit) 129 ⟨w,.started⟩
      (.aside (.open_other 9)) = some ⟨w,s⟩ := by
    simp only [System.step,hs]
    rfl
  have hrun : run (System.step 65536 (.frame_pointer : TraceImpl Unit) 129) ⟨openWorld,.started⟩
      [.call plainBuild,.aside (.open_other 9),.signal ordinary] = some c :=
    (run_cons_some hcall _).trans ((run_cons_some haside _).trans (run_cons_some hsignal []))
  obtain ⟨hops,-,hfits⟩ := system_refines (by decide) (by decide)
    openWorld_fresh Process.started_unopened hrun
  have htrail : trail (System.step 65536 (.frame_pointer : TraceImpl Unit) 129)
      (System.ops 65536 (.frame_pointer : TraceImpl Unit) 129) ⟨openWorld,.started⟩
      [.call plainBuild,.aside (.open_other 9),.signal ordinary] = [plainBuild,.signal
        (s.interrupted 65536 (.frame_pointer : TraceImpl Unit) 129 p ordinary) none] := by
    simp only [trail,hcall,haside,hsignal,Option.elim_some,System.ops,hp]
    rfl
  rw [htrail] at hops hfits
  exact ⟨_,_,hrun,hops,(hfits _ none (by simp)).1⟩

end Plain

end Pprof
