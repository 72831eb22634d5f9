import Pprof.Lib.Runs
import Pprof.Report
set_option autoImplicit false

/-! `ProfilerGuardBuilder` and `ProfilerGuard` of `profiler.rs`, over the one profiler
of the process. Each call runs alone, as the lock makes it; what other threads can do
between the steps of a call is another matter. -/

namespace Pprof
open Memory Runs

structure ProfilerGuardBuilder where
  frequency : Int32
  on_stack : Bool
  blocklist_segments : List (UInt64 × UInt64)

def ProfilerGuardBuilder.default : ProfilerGuardBuilder := ⟨99,false,[]⟩

structure ProfilerGuard where
  timer : Option Timer

theorem eraseIdx_singleton {α : Type} {l : List α} {a b : α} {i : Nat} (h : l = [a])
    (hi : l[i]? = some b) : l.eraseIdx i = [] := by
  subst h
  cases i with
  | zero => rfl
  | succ i => simp at hi

variable {F : Type} [Layout (Entry (UnresolvedFrames F))] [Target]

/-- The process: the lazily created profiler, the state it has in the OS, the live guards. -/
structure World (F : Type) [Layout (Entry (UnresolvedFrames F))] [Target] where
  PROFILER : Option (Except Error (Profiler F))
  os : Os
  guards : List ProfilerGuard

structure BuildFaults where
  create : Bool
  sigaction : Bool
  deriving DecidableEq

/-- The profiler is created by the first who asks for it, and an error stays. -/
def trigger_lazy (profiler : Option (Except Error (Profiler F))) (fails : Bool) :
    Except Error (Profiler F) :=
  match profiler with
  | some profiler => profiler
  | none => Profiler.new fails

def ProfilerGuardBuilder.configure (b : ProfilerGuardBuilder) (p : Profiler F) : Profiler F :=
  { p with
    on_stack := if Target.frame_pointer then b.on_stack else p.on_stack
    blocklist_segments := b.blocklist_segments }

/-- A panic in `Timer::new` unwinds with the profiler already started, and the lock is
released. -/
def ProfilerGuardBuilder.build (b : ProfilerGuardBuilder) (w : World F) (faults : BuildFaults)
    (now : Clock) : Except Panic (Except Error ProfilerGuard) × World F :=
  match trigger_lazy w.PROFILER faults.create with
  | .error err => (.ok (.error .CreatingError),{ w with PROFILER := some (.error err) })
  | .ok p =>
    match (b.configure p).start w.os faults.sigaction with
    | (.error err,p,os) => (.ok (.error err),{ w with PROFILER := some (.ok p), os })
    | (.ok (),p,os) =>
      match Timer.new os b.frequency now with
      | .ok (timer,os) => (.ok (.ok ⟨some timer⟩),{ w with PROFILER := some (.ok p), os })
      | .error panic => (.error panic,{ w with PROFILER := some (.ok p), os })

/-- The timer is dropped first. An error of `stop` is only logged. -/
def ProfilerGuard.drop (g : ProfilerGuard) (w : World F) (faults : StopFaults) : World F :=
  let os := match g.timer with
    | some _ => Timer.drop w.os
    | none => w.os
  match w.PROFILER with
  | some (.ok p) =>
    let (_,p,os) := p.stop os faults
    { w with PROFILER := some (.ok p), os }
  | _ => { w with os }

def ProfilerGuard.report {σ : Type} (g : ProfilerGuard) (profiler : Except Error (Profiler F))
    (now : Clock) : ReportBuilder F σ :=
  .new profiler ((g.timer.map fun timer => timer.timing now).getD ReportTiming.default)

/-- What can happen to the process, one call after the other. `Sigaction` is another part
of the program that sets the SIGPROF action. -/
inductive Op (F : Type) where
  | build (b : ProfilerGuardBuilder) (faults : BuildFaults) (now : Clock)
  | drop (i : Nat) (faults : StopFaults)
  | report (i : Nat)
  | signal (at_ : Interrupted F) (fault : Option Nat)
  | sigaction (act : SigAction)

/-- A caller survives the panic of `build`; one in the handler aborts the process. A
report reads the profiler through a guard and changes nothing. -/
def World.step [Frame F] [DefaultHasher] (w : World F) : Op F → Option (World F)
  | .build b faults now =>
    match b.build w faults now with
    | (.ok (.ok guard),w) => some { w with guards := w.guards ++ [guard] }
    | (_,w) => some w
  | .drop i faults =>
    match w.guards[i]? with
    | some guard => some (guard.drop { w with guards := w.guards.eraseIdx i } faults)
    | none => none
  | .report i => if i < w.guards.length then some w else none
  | .signal at_ fault =>
    match w.PROFILER with
    | some profiler =>
      if w.os.sigprof.handler = .perf_signal_handler then
        match perf_signal_handler profiler at_ fault with
        | .ok profiler => some { w with PROFILER := some profiler }
        | .error _ => none
      else none
    | none => none
  | .sigaction act => some { w with os := { w.os with sigprof := act } }

/-- Before the first build: the profiler's handler is not installed, its timer not armed. -/
structure World.Fresh (w : World F) : Prop where
  PROFILER : w.PROFILER = none
  sigprof : w.os.sigprof.handler ≠ .perf_signal_handler
  itimer : w.os.Disarmed
  guards : w.guards = []

@[simp] theorem configure_running (b : ProfilerGuardBuilder) (p : Profiler F) :
    (b.configure p).running = p.running := rfl

section Build
variable {b : ProfilerGuardBuilder} {w : World F} {p : Profiler F} {faults : BuildFaults}

def ProfilerGuardBuilder.started (b : ProfilerGuardBuilder) (p : Profiler F) (os : Os) :
    Profiler F := { b.configure p with old_sigaction := some os.sigprof, running := true }

theorem build_not_created {err : Error}
    (ht : trigger_lazy w.PROFILER faults.create = .error err) (now : Clock) :
    b.build w faults now =
      (.ok (.error .CreatingError),{ w with PROFILER := some (.error err) }) := by
  simp only [ProfilerGuardBuilder.build,ht]

theorem build_running (ht : trigger_lazy w.PROFILER faults.create = .ok p)
    (hp : p.running = true) (now : Clock) :
    b.build w faults now =
      (.ok (.error .Running),{ w with PROFILER := some (.ok (b.configure p)) }) := by
  have hs := start_running (p := b.configure p) hp w.os faults.sigaction
  simp only [ProfilerGuardBuilder.build,ht,hs]

theorem build_sigaction_fails (ht : trigger_lazy w.PROFILER faults.create = .ok p)
    (hp : p.running = false) (hs : faults.sigaction = true) (now : Clock) :
    b.build w faults now =
      (.ok (.error .NixError),{ w with PROFILER := some (.ok (b.configure p)) }) := by
  have hs' := start_fails (p := b.configure p) hp w.os
  simp only [ProfilerGuardBuilder.build,ht,hs,hs']

theorem build_zero (ht : trigger_lazy w.PROFILER faults.create = .ok p)
    (hp : p.running = false) (hs : faults.sigaction = false) (hf : b.frequency = 0) (now : Clock) :
    b.build w faults now = (.error .divideByZero,{ w with
      PROFILER := some (.ok (b.started p w.os))
      os := { w.os with sigprof := (b.configure p).handlerAction } }) := by
  have hs' := start_ok (p := b.configure p) hp w.os
  simp only [ProfilerGuardBuilder.build,ht,hs,hs',Timer.new,if_pos hf]
  rfl

theorem build_guard (ht : trigger_lazy w.PROFILER faults.create = .ok p)
    (hp : p.running = false) (hs : faults.sigaction = false) (hf : b.frequency ≠ 0) (now : Clock) :
    ∃ timer, b.build w faults now = (.ok (.ok ⟨some timer⟩),{ w with
      PROFILER := some (.ok (b.started p w.os))
      os := Os.setitimer { w.os with sigprof := (b.configure p).handlerAction }
        ⟨interval b.frequency,interval b.frequency⟩ }) := by
  have hs' := start_ok (p := b.configure p) hp w.os
  simp only [ProfilerGuardBuilder.build,ht,hs,hs',Timer.new,if_neg hf]
  exact ⟨_,rfl⟩

theorem build_cases (b : ProfilerGuardBuilder) (w : World F) (faults : BuildFaults) (now : Clock) :
    (∃ err, trigger_lazy w.PROFILER faults.create = .error err ∧ b.build w faults now =
      (.ok (.error .CreatingError),{ w with PROFILER := some (.error err) })) ∨
    ∃ p, trigger_lazy w.PROFILER faults.create = .ok p ∧
      ((p.running = true ∧ b.build w faults now =
        (.ok (.error .Running),{ w with PROFILER := some (.ok (b.configure p)) })) ∨
      (p.running = false ∧ faults.sigaction = true ∧ b.build w faults now =
        (.ok (.error .NixError),{ w with PROFILER := some (.ok (b.configure p)) })) ∨
      (p.running = false ∧ faults.sigaction = false ∧ b.frequency = 0 ∧ b.build w faults now =
        (.error .divideByZero,{ w with
          PROFILER := some (.ok (b.started p w.os))
          os := { w.os with sigprof := (b.configure p).handlerAction } })) ∨
      (p.running = false ∧ faults.sigaction = false ∧ b.frequency ≠ 0 ∧
        ∃ timer, b.build w faults now = (.ok (.ok ⟨some timer⟩),{ w with
          PROFILER := some (.ok (b.started p w.os))
          os := Os.setitimer { w.os with sigprof := (b.configure p).handlerAction }
            ⟨interval b.frequency,interval b.frequency⟩ }))) := by
  cases ht : trigger_lazy w.PROFILER faults.create with
  | error err => exact .inl ⟨err,rfl,build_not_created ht now⟩
  | ok p =>
    refine .inr ⟨p,rfl,?_⟩
    cases hp : p.running with
    | true => exact .inl ⟨rfl,build_running ht hp now⟩
    | false =>
      cases hs : faults.sigaction with
      | true => exact .inr (.inl ⟨rfl,rfl,build_sigaction_fails ht hp hs now⟩)
      | false =>
        by_cases hf : b.frequency = 0
        · exact .inr (.inr (.inl ⟨rfl,rfl,hf,build_zero ht hp hs hf now⟩))
        · exact .inr (.inr (.inr ⟨rfl,rfl,hf,build_guard ht hp hs hf now⟩))

end Build

@[simp] theorem drop_guards (g : ProfilerGuard) (w : World F) (faults : StopFaults) :
    (g.drop w faults).guards = w.guards := by
  obtain ⟨profiler,os,guards⟩ := w
  rcases profiler with - | err | p <;> rfl

theorem drop_started (timer : Timer) {w : World F} {p : Profiler F} {act : SigAction}
    (hp : w.PROFILER = some (.ok p)) (hrun : p.running = true) (ha : p.old_sigaction = some act)
    {data : Collector (UnresolvedFrames F)} (hd : Collector.new false = .ok data) :
    (⟨some timer⟩ : ProfilerGuard).drop w ⟨false,false⟩ = { w with
      PROFILER := some (.ok { p with
        data, sample_counter := 0, old_sigaction := none, running := false })
      os := { Timer.drop w.os with sigprof := act } } := by
  simp only [ProfilerGuard.drop,hp,stop_ok hrun ha (Timer.drop w.os) hd]

section Steps
variable [Frame F] [DefaultHasher] {w w' : World F}

theorem step_drop {i : Nat} {faults : StopFaults} (h : w.step (.drop i faults) = some w') :
    ∃ guard, w.guards[i]? = some guard ∧
      w' = guard.drop { w with guards := w.guards.eraseIdx i } faults := by
  simp only [World.step] at h
  split at h
  · rename_i guard hg
    cases h
    exact ⟨guard,hg,rfl⟩
  · cases h

theorem step_report {i : Nat} (h : w.step (.report i) = some w') :
    i < w.guards.length ∧ w' = w := by
  simp only [World.step] at h
  split at h
  · rename_i hi
    cases h
    exact ⟨hi,rfl⟩
  · cases h

theorem step_signal {at_ : Interrupted F} {fault : Option Nat}
    (h : w.step (.signal at_ fault) = some w') :
    ∃ profiler profiler', w.PROFILER = some profiler ∧
      w.os.sigprof.handler = .perf_signal_handler ∧
      perf_signal_handler profiler at_ fault = .ok profiler' ∧
      w' = { w with PROFILER := some profiler' } := by
  simp only [World.step] at h
  split at h
  · rename_i profiler hp
    split at h
    · rename_i hh
      split at h
      · rename_i profiler' hr
        cases h
        exact ⟨profiler,profiler',hp,hh,hr,rfl⟩
      · cases h
    · cases h
  · cases h

end Steps

end Pprof
