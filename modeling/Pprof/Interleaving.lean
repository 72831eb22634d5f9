import Pprof.ProfilerGuard
set_option autoImplicit false

/-! The calls of `profiler.rs` in pieces, as other threads and the timer can come between
them. The lock is a spin lock: who asks for it waits, only the handler gives up. Reports
hold it to read and change nothing. -/

namespace Pprof
open Memory Runs

variable {F : Type} [Layout (Entry (UnresolvedFrames F))] [Target]

/-- Who has the lock for writing: a `build` past the start, a `drop` past the change of the
SIGPROF action, or no one. -/
inductive Lock where
  | free
  | building (frequency : Int32) (now : Clock)
  | dropping (i : Nat)
  deriving DecidableEq

/-- A run of the handler that has not asked for the lock yet, with the session in which
its signal was delivered. -/
structure HandlerRun (F : Type) where
  session : Nat
  at_ : Interrupted F

/-- `pending` is a SIGPROF of the profiler's timer that no thread has taken yet: further
expiries add nothing to it. `session` counts the sessions, `recorded` are the samples
since the collector was last made anew, each with the session of its signal, and `lost` says
whether one of the writes since then has failed. -/
structure Threads (F : Type) [Layout (Entry (UnresolvedFrames F))] [Target] where
  world : World F
  lock : Lock
  pending : Bool
  handlers : List (HandlerRun F)
  session : Nat
  recorded : List (Nat × UnresolvedFrames F)
  lost : Bool

inductive Event (F : Type) where
  | build (b : ProfilerGuardBuilder) (faults : BuildFaults) (now : Clock)
  | arm
  | disarm (i : Nat)
  | restore (i : Nat) (fails : Bool)
  | reset (fails : Bool)
  | expire
  | deliver (at_ : Interrupted F)
  | raise (at_ : Interrupted F)
  | sample (i : Nat) (fault : Option Nat)
  | give_up (i : Nat)

/-- A SIGPROF reaches the action that is installed. Of what the others do nothing is known. -/
def Threads.signal (c : Threads F) (at_ : Interrupted F) : Threads F :=
  if c.world.os.sigprof.handler = .perf_signal_handler then
    { c with handlers := c.handlers ++ [⟨c.session,at_⟩] }
  else c

theorem signal_eq (c : Threads F) (at_ : Interrupted F) :
    ∃ handlers, c.signal at_ = { c with handlers } := by
  unfold Threads.signal
  split <;> exact ⟨_,rfl⟩

def taken [Frame F] (profiler : Except Error (Profiler F)) (at_ : Interrupted F) :
    List (UnresolvedFrames F) :=
  match profiler with
  | .error _ => []
  | .ok p =>
    if at_.addr.any p.is_blocklisted then []
    else
      match UnresolvedFrames.new (p.capture 0 at_.trace) at_.thread_name at_.thread_id
          at_.sample_timestamp with
      | .ok frames => [frames]
      | .error _ => []

def Profiler.addFails [Frame F] [DefaultHasher] (p : Profiler F) (frames : UnresolvedFrames F)
    (fault : Option Nat) : Bool :=
  (p.data.add frames 1 fault).toOption.any fun r => !r.1.toBool

/-- The handler loses an entry. -/
def spillFails [Frame F] [DefaultHasher] (profiler : Except Error (Profiler F))
    (at_ : Interrupted F) (fault : Option Nat) : Bool :=
  match profiler with
  | .error _ => false
  | .ok p => (taken profiler at_).any (p.addFails · fault)

/-- `build` has the lock from its first step to `arm`, which returns the guard. `drop`
disarms the timer before it asks for the lock, which it has from `restore` to `reset`;
its guard is there until then. A pending signal does not survive an action that ignores it. -/
def Threads.step [Frame F] [DefaultHasher] (c : Threads F) : Event F → Option (Threads F)
  | .build b faults now =>
    match c.lock with
    | .free =>
      match trigger_lazy c.world.PROFILER faults.create with
      | .error err => some { c with world := { c.world with PROFILER := some (.error err) } }
      | .ok p =>
        match (b.configure p).start c.world.os faults.sigaction with
        | (.error _,p,os) =>
          some { c with world := { c.world with PROFILER := some (.ok p), os } }
        | (.ok (),p,os) => some { c with
            world := { c.world with PROFILER := some (.ok p), os }
            lock := .building b.frequency now
            session := c.session+1 }
    | _ => none
  | .arm =>
    match c.lock with
    | .building frequency now =>
      match Timer.new c.world.os frequency now with
      | .ok (timer,os) => some { c with
          world := { c.world with os, guards := c.world.guards ++ [⟨some timer⟩] }
          lock := .free }
      | .error _ => some { c with lock := .free }
    | _ => none
  | .disarm i =>
    match c.world.guards[i]? with
    | some ⟨some _⟩ => some { c with world := { c.world with
        os := Timer.drop c.world.os
        guards := c.world.guards.set i ⟨none⟩ } }
    | _ => none
  | .restore i fails =>
    match c.lock, c.world.guards[i]? with
    | .free, some ⟨none⟩ =>
      match c.world.PROFILER with
      | some (.ok p) =>
        if p.running then
          match p.unregister_signal_handler c.world.os fails with
          | (.ok (),p,os) => some { c with
              world := { c.world with PROFILER := some (.ok p), os }
              lock := .dropping i
              pending := c.pending && decide (os.sigprof.handler ≠ .SigIgn) }
          | (.error _,p,os) => some { c with world := { c.world with
              PROFILER := some (.ok p)
              os
              guards := c.world.guards.eraseIdx i } }
        else some { c with world := { c.world with guards := c.world.guards.eraseIdx i } }
      | _ => some { c with world := { c.world with guards := c.world.guards.eraseIdx i } }
    | _, _ => none
  | .reset fails =>
    match c.lock, c.world.PROFILER with
    | .dropping i, some (.ok p) => some { c with
        world := { c.world with
          PROFILER := some (.ok (p.init fails).2)
          guards := c.world.guards.eraseIdx i }
        lock := .free
        recorded := if fails then c.recorded else []
        lost := fails && c.lost }
    | _, _ => none
  | .expire => if c.world.os.Disarmed then none else some { c with pending := true }
  | .deliver at_ => if c.pending then some ({ c with pending := false }.signal at_) else none
  | .raise at_ => some (c.signal at_)
  | .sample i fault =>
    match c.lock, c.handlers[i]?, c.world.PROFILER with
    | .free, some run, some profiler =>
      match perf_signal_handler profiler run.at_ fault with
      | .ok profiler' => some { c with
          world := { c.world with PROFILER := some profiler' }
          handlers := c.handlers.eraseIdx i
          recorded := c.recorded ++ (taken profiler run.at_).map (run.session,·)
          lost := c.lost || spillFails profiler run.at_ fault }
      | .error _ => none
    | _, _, _ => none
  | .give_up i =>
    if i < c.handlers.length then some { c with handlers := c.handlers.eraseIdx i } else none

def World.threads (w : World F) : Threads F := ⟨w,.free,false,[],0,[],false⟩

section Steps
variable [Frame F] [DefaultHasher] {c c' : Threads F}

theorem step_build {b : ProfilerGuardBuilder} {faults : BuildFaults} {now : Clock}
    (h : c.step (.build b faults now) = some c') :
    c.lock = .free ∧
      ((∃ err, trigger_lazy c.world.PROFILER faults.create = .error err ∧
          c' = { c with world := { c.world with PROFILER := some (.error err) } }) ∨
        ∃ p, trigger_lazy c.world.PROFILER faults.create = .ok p ∧
          (c' = { c with world := { c.world with PROFILER := some (.ok (b.configure p)) } } ∨
            p.running = false ∧ c' = { c with
              world := { c.world with
                PROFILER := some (.ok (b.started p c.world.os))
                os := { c.world.os with sigprof := (b.configure p).handlerAction } }
              lock := .building b.frequency now
              session := c.session+1 })) := by
  cases hl : c.lock with
  | building | dropping => simp [Threads.step,hl] at h
  | free =>
    refine ⟨rfl,?_⟩
    simp only [Threads.step,hl] at h
    cases ht : trigger_lazy c.world.PROFILER faults.create with
    | error err =>
      simp only [ht] at h
      cases h
      exact .inl ⟨err,rfl,rfl⟩
    | ok p =>
      refine .inr ⟨p,rfl,?_⟩
      simp only [ht] at h
      cases hp : p.running with
      | true =>
        have hs := start_running (p := b.configure p) hp c.world.os faults.sigaction
        simp only [hs] at h
        cases h
        exact .inl rfl
      | false =>
        cases hf : faults.sigaction with
        | true =>
          have hs := start_fails (p := b.configure p) hp c.world.os
          simp only [hf,hs] at h
          cases h
          exact .inl rfl
        | false =>
          have hs := start_ok (p := b.configure p) hp c.world.os
          simp only [hf,hs] at h
          cases h
          exact .inr ⟨rfl,rfl⟩

theorem build_starts {b : ProfilerGuardBuilder} {faults : BuildFaults} {p : Profiler F}
    (hl : c.lock = .free) (ht : trigger_lazy c.world.PROFILER faults.create = .ok p)
    (hp : p.running = false) (hf : faults.sigaction = false) (now : Clock) :
    c.step (.build b faults now) = some { c with
      world := { c.world with
        PROFILER := some (.ok (b.started p c.world.os))
        os := { c.world.os with sigprof := (b.configure p).handlerAction } }
      lock := .building b.frequency now
      session := c.session+1 } := by
  have hs := start_ok (p := b.configure p) hp c.world.os
  simp only [Threads.step,hl,ht,hf,hs]
  rfl

theorem arm_panics {frequency : Int32} {now : Clock} {panic : Panic}
    (hl : c.lock = .building frequency now)
    (h : Timer.new c.world.os frequency now = .error panic) :
    c.step .arm = some { c with lock := .free } := by
  simp only [Threads.step,hl,h]

theorem arm_ok {frequency : Int32} {now : Clock} {timer : Timer} {os : Os}
    (hl : c.lock = .building frequency now)
    (h : Timer.new c.world.os frequency now = .ok (timer,os)) :
    c.step .arm = some { c with
      world := { c.world with os, guards := c.world.guards ++ [⟨some timer⟩] }
      lock := .free } := by
  simp only [Threads.step,hl,h]

theorem step_arm (h : c.step .arm = some c') :
    ∃ frequency now, c.lock = .building frequency now ∧
      ((∃ timer os, os.sigprof = c.world.os.sigprof ∧ c' = { c with
          world := { c.world with os, guards := c.world.guards ++ [⟨some timer⟩] }
          lock := .free }) ∨
        c' = { c with lock := .free }) := by
  cases hl : c.lock with
  | free | dropping => simp [Threads.step,hl] at h
  | building frequency now =>
    refine ⟨frequency,now,rfl,?_⟩
    simp only [Threads.step,hl] at h
    cases ht : Timer.new c.world.os frequency now with
    | error panic =>
      simp only [ht] at h
      cases h
      exact .inr rfl
    | ok r =>
      obtain ⟨timer,os⟩ := r
      simp only [ht] at h
      cases h
      refine .inl ⟨timer,os,?_,rfl⟩
      rw [(timer_new ht).2,setitimer_sigprof]

theorem step_disarm {i : Nat} (h : c.step (.disarm i) = some c') :
    (∃ timer, c.world.guards[i]? = some ⟨some timer⟩) ∧ c' = { c with world := { c.world with
      os := Timer.drop c.world.os
      guards := c.world.guards.set i ⟨none⟩ } } := by
  simp only [Threads.step] at h
  split at h
  · rename_i timer hg
    cases h
    exact ⟨⟨timer,hg⟩,rfl⟩
  · cases h

theorem step_restore {i : Nat} {fails : Bool} (h : c.step (.restore i fails) = some c') :
    c.lock = .free ∧ c.world.guards[i]? = some ⟨none⟩ ∧
      ((∃ p, c.world.PROFILER = some (.ok p) ∧ p.running = true ∧
          (p.old_sigaction = none ∨ fails = false) ∧ c' = { c with
            world := { c.world with
              PROFILER := some (.ok { p with old_sigaction := none })
              os := { c.world.os with sigprof := p.old_sigaction.getD c.world.os.sigprof } }
            lock := .dropping i
            pending := c.pending &&
              decide ((p.old_sigaction.getD c.world.os.sigprof).handler ≠ .SigIgn) }) ∨
        (∃ p, c.world.PROFILER = some (.ok p) ∧ p.running = true ∧ fails = true ∧
          c' = { c with world := { c.world with
            PROFILER := some (.ok { p with old_sigaction := none })
            guards := c.world.guards.eraseIdx i } }) ∨
        ((∀ p, c.world.PROFILER = some (.ok p) → p.running = false) ∧
          c' = { c with world := { c.world with guards := c.world.guards.eraseIdx i } })) := by
  simp only [Threads.step] at h
  split at h
  · rename_i hl hg
    refine ⟨hl,hg,?_⟩
    split at h
    · rename_i p hp
      by_cases hrun : p.running = true
      · rw [if_pos hrun] at h
        obtain ⟨data,counter,old,running,on_stack,segments⟩ := p
        cases old with
        | none =>
          cases h
          exact .inl ⟨_,hp,hrun,.inl rfl,rfl⟩
        | some act =>
          cases fails with
          | true =>
            cases h
            exact .inr (.inl ⟨_,hp,hrun,rfl,rfl⟩)
          | false =>
            cases h
            exact .inl ⟨_,hp,hrun,.inr rfl,rfl⟩
      · rw [if_neg hrun] at h
        cases h
        refine .inr (.inr ⟨?_,rfl⟩)
        intro q hq
        rw [hp] at hq
        cases hq
        simpa using hrun
    · rename_i hne
      cases h
      exact .inr (.inr ⟨fun p hp => absurd hp (hne p),rfl⟩)
  · cases h

theorem step_reset {fails : Bool} (h : c.step (.reset fails) = some c') :
    ∃ i p, c.lock = .dropping i ∧ c.world.PROFILER = some (.ok p) ∧ c' = { c with
      world := { c.world with
        PROFILER := some (.ok (p.init fails).2)
        guards := c.world.guards.eraseIdx i }
      lock := .free
      recorded := if fails then c.recorded else []
      lost := fails && c.lost } := by
  simp only [Threads.step] at h
  split at h
  · rename_i i p hl hp
    cases h
    exact ⟨i,p,hl,hp,rfl⟩
  · cases h

theorem step_expire (h : c.step .expire = some c') :
    ¬ c.world.os.Disarmed ∧ c' = { c with pending := true } := by
  simp only [Threads.step] at h
  split at h
  · cases h
  · rename_i ha
    cases h
    exact ⟨ha,rfl⟩

theorem step_deliver {at_ : Interrupted F} (h : c.step (.deliver at_) = some c') :
    c.pending = true ∧ c' = { c with pending := false }.signal at_ := by
  simp only [Threads.step] at h
  split at h
  · rename_i hp
    cases h
    exact ⟨hp,rfl⟩
  · cases h

theorem step_give_up {i : Nat} (h : c.step (.give_up i) = some c') :
    c' = { c with handlers := c.handlers.eraseIdx i } := by
  simp only [Threads.step] at h
  split at h
  · cases h
    rfl
  · cases h

def Event.aside : Event F → Bool
  | .expire | .deliver _ | .raise _ | .give_up _ => true
  | _ => false

theorem step_aside {e : Event F} (he : e.aside = true) (h : c.step e = some c') :
    ∃ pending handlers, c' = { c with pending, handlers } := by
  cases e with
  | expire => exact ⟨_,_,(step_expire h).2⟩
  | deliver at_ =>
    obtain ⟨handlers,hc⟩ := signal_eq { c with pending := false } at_
    exact ⟨_,handlers,(step_deliver h).2.trans hc⟩
  | raise at_ =>
    obtain ⟨handlers,hc⟩ := signal_eq c at_
    cases h
    exact ⟨_,handlers,hc⟩
  | give_up i => exact ⟨_,_,step_give_up h⟩
  | _ => cases he

theorem sample_ok {i : Nat} {fault : Option Nat} {run : HandlerRun F}
    {profiler profiler' : Except Error (Profiler F)} (hl : c.lock = .free)
    (hr : c.handlers[i]? = some run) (hp : c.world.PROFILER = some profiler)
    (hh : perf_signal_handler profiler run.at_ fault = .ok profiler') :
    c.step (.sample i fault) = some { c with
      world := { c.world with PROFILER := some profiler' }
      handlers := c.handlers.eraseIdx i
      recorded := c.recorded ++ (taken profiler run.at_).map (run.session,·)
      lost := c.lost || spillFails profiler run.at_ fault } := by
  simp only [Threads.step,hl,hr,hp,hh]

theorem step_sample {i : Nat} {fault : Option Nat} (h : c.step (.sample i fault) = some c') :
    ∃ run profiler profiler', c.lock = .free ∧ c.handlers[i]? = some run ∧
      c.world.PROFILER = some profiler ∧
      perf_signal_handler profiler run.at_ fault = .ok profiler' ∧ c' = { c with
        world := { c.world with PROFILER := some profiler' }
        handlers := c.handlers.eraseIdx i
        recorded := c.recorded ++ (taken profiler run.at_).map (run.session,·)
        lost := c.lost || spillFails profiler run.at_ fault } := by
  simp only [Threads.step] at h
  split at h
  · rename_i run profiler hl hr hp
    split at h
    · rename_i profiler' hh
      cases h
      exact ⟨run,profiler,profiler',hl,hr,hp,hh,rfl⟩
    · cases h
  · cases h

theorem build_threaded (hl : c.lock = .free) {b : ProfilerGuardBuilder} {faults : BuildFaults}
    {now : Clock} {w : World F} (h : c.world.step (.build b faults now) = some w) :
    ∃ es c', run Threads.step c es = some c' ∧ c'.lock = .free ∧ c'.world = w := by
  simp only [World.step,ProfilerGuardBuilder.build] at h
  cases ht : trigger_lazy c.world.PROFILER faults.create with
  | error err =>
    simp only [ht] at h
    cases h
    have hs : c.step (.build b faults now) = some { c with
        world := { c.world with PROFILER := some (.error err) } } := by
      simp only [Threads.step,hl,ht]
    exact ⟨_,_,run_cons_some hs [],hl,rfl⟩
  | ok p =>
    rcases hstart : (b.configure p).start c.world.os faults.sigaction with ⟨r,q,os⟩
    simp only [ht,hstart] at h
    cases r with
    | error err =>
      cases h
      have hs : c.step (.build b faults now) = some { c with
          world := { c.world with PROFILER := some (.ok q), os } } := by
        simp only [Threads.step,hl,ht,hstart]
      exact ⟨_,_,run_cons_some hs [],hl,rfl⟩
    | ok u =>
      have hs : c.step (.build b faults now) = some { c with
          world := { c.world with PROFILER := some (.ok q), os }
          lock := .building b.frequency now
          session := c.session+1 } := by
        simp only [Threads.step,hl,ht,hstart]
      cases hn : Timer.new os b.frequency now with
      | error panic =>
        simp only [hn] at h
        cases h
        have ha := arm_panics (c := { c with
          world := { c.world with PROFILER := some (.ok q), os }
          lock := .building b.frequency now
          session := c.session+1 }) rfl hn
        exact ⟨[_,_],_,(run_cons_some hs _).trans (run_cons_some ha []),rfl,rfl⟩
      | ok r =>
        obtain ⟨timer,os'⟩ := r
        simp only [hn] at h
        cases h
        have ha := arm_ok (c := { c with
          world := { c.world with PROFILER := some (.ok q), os }
          lock := .building b.frequency now
          session := c.session+1 }) rfl hn
        exact ⟨[_,_],_,(run_cons_some hs _).trans (run_cons_some ha []),rfl,rfl⟩

theorem restore_idle (hl : c.lock = .free) {i : Nat} (hg : c.world.guards[i]? = some ⟨none⟩)
    (hidle : ∀ p, c.world.PROFILER = some (.ok p) → p.running = false) (fails : Bool) :
    c.step (.restore i fails) =
      some { c with world := { c.world with guards := c.world.guards.eraseIdx i } } := by
  simp only [Threads.step,hl,hg]
  split
  · rename_i p hp
    simp [hidle p hp]
  · rfl

theorem drop_threaded (hl : c.lock = .free) {i : Nat} {timer : Timer}
    (hg : c.world.guards[i]? = some ⟨some timer⟩) {faults : StopFaults} {w : World F}
    (h : c.world.step (.drop i faults) = some w) :
    ∃ es c', run Threads.step c es = some c' ∧ c'.lock = .free ∧ c'.world = w := by
  have hd : c.step (.disarm i) = some { c with world := { c.world with
      os := Timer.drop c.world.os
      guards := c.world.guards.set i ⟨none⟩ } } := by
    simp only [Threads.step,hg]
  have hg' : (c.world.guards.set i ⟨none⟩)[i]? = some ⟨none⟩ := by
    obtain ⟨hi,-⟩ := List.getElem?_eq_some_iff.mp hg
    simp [hi]
  have herase : (c.world.guards.set i ⟨none⟩).eraseIdx i = c.world.guards.eraseIdx i :=
    List.eraseIdx_set_eq
  simp only [World.step,hg,ProfilerGuard.drop] at h
  generalize hc₁ : ({ c with world := { c.world with
      os := Timer.drop c.world.os
      guards := c.world.guards.set i ⟨none⟩ } } : Threads F) = c₁ at hd
  have hl₁ : c₁.lock = .free := by rw [← hc₁]; exact hl
  have hp₁ : c₁.world.PROFILER = c.world.PROFILER := by rw [← hc₁]
  have ho₁ : c₁.world.os = Timer.drop c.world.os := by rw [← hc₁]
  have hg₁ : c₁.world.guards[i]? = some ⟨none⟩ := by rw [← hc₁]; exact hg'
  have he₁ : c₁.world.guards.eraseIdx i = c.world.guards.eraseIdx i := by rw [← hc₁]; exact herase
  -- The second event of a drop that does not stop a profiler is the last.
  have hidle (hidle : ∀ p, c.world.PROFILER = some (.ok p) → p.running = false)
      (hw : { c.world with os := Timer.drop c.world.os, guards := c.world.guards.eraseIdx i } = w) :
      ∃ es c', run Threads.step c es = some c' ∧ c'.lock = .free ∧ c'.world = w := by
    have hr := restore_idle hl₁ hg₁ (hp₁ ▸ hidle) faults.restore
    exact ⟨[_,_],_,(run_cons_some hd _).trans (run_cons_some hr []),hl₁,by
      simp only [he₁,hp₁,ho₁,hw]⟩
  rcases hp : c.world.PROFILER with - | err | p
  · simp only [hp] at h
    cases h
    exact hidle (by simp [hp]) (by simp only [hp])
  · simp only [hp] at h
    cases h
    exact hidle (by simp [hp]) (by simp only [hp])
  · cases hrun : p.running with
    | false =>
      simp only [hp,stop_not_running hrun] at h
      cases h
      exact hidle (by simp [hp,hrun]) (by simp only [hp])
    | true =>
      rcases hu : p.unregister_signal_handler (Timer.drop c.world.os) faults.restore
        with ⟨r,q,os⟩
      simp only [hp,Profiler.stop,hrun,if_true,hu] at h
      cases r with
      | error err =>
        cases h
        have hr : c₁.step (.restore i faults.restore) = some { c₁ with world := { c₁.world with
            PROFILER := some (.ok q)
            os
            guards := c₁.world.guards.eraseIdx i } } := by
          simp only [Threads.step,hl₁,hg₁,hp₁,hp,hrun,if_true,ho₁,hu]
        exact ⟨[_,_],_,(run_cons_some hd _).trans (run_cons_some hr []),hl₁,by simp only [he₁]⟩
      | ok u =>
        cases h
        have hr : c₁.step (.restore i faults.restore) = some { c₁ with
            world := { c₁.world with PROFILER := some (.ok q), os }
            lock := .dropping i
            pending := c₁.pending && decide (os.sigprof.handler ≠ .SigIgn) } := by
          simp only [Threads.step,hl₁,hg₁,hp₁,hp,hrun,if_true,ho₁,hu]
        refine ⟨[.disarm i,.restore i faults.restore,.reset faults.create],_,
          (run_cons_some hd _).trans ((run_cons_some hr _).trans (run_cons_some rfl [])),rfl,?_⟩
        simp only [he₁]

theorem signal_threaded (hl : c.lock = .free) {at_ : Interrupted F} {fault : Option Nat}
    {w : World F} (h : c.world.step (.signal at_ fault) = some w) :
    ∃ es c', run Threads.step c es = some c' ∧ c'.lock = .free ∧ c'.world = w := by
  obtain ⟨profiler,profiler',hp,hh,hr,rfl⟩ := step_signal h
  have hs : c.step (.raise at_) = some { c with
      handlers := c.handlers ++ [⟨c.session,at_⟩] } := by
    simp only [Threads.step,Threads.signal,if_pos hh]
  have hi : (c.handlers ++ [⟨c.session,at_⟩])[c.handlers.length]? = some ⟨c.session,at_⟩ := by
    simp
  have ht := sample_ok (c := { c with
    handlers := c.handlers ++ [⟨c.session,at_⟩] }) hl hi hp hr
  exact ⟨[_,_],_,(run_cons_some hs _).trans (run_cons_some ht []),hl,rfl⟩

def Threaded (w : World F) : Op F → Prop
  | .build .. => True
  | .drop i _ => ∃ timer, w.guards[i]? = some ⟨some timer⟩
  | .report _ => True
  | .signal .. => True
  | .sigaction _ => False

theorem step_threaded (hl : c.lock = .free) {op : Op F} (hop : Threaded c.world op) {w : World F}
    (h : c.world.step op = some w) :
    ∃ es c', run Threads.step c es = some c' ∧ c'.lock = .free ∧ c'.world = w := by
  cases op with
  | build b faults now => exact build_threaded hl h
  | drop i faults =>
    obtain ⟨timer,hg⟩ := hop
    exact drop_threaded hl hg h
  | report i =>
    obtain ⟨-,rfl⟩ := step_report h
    exact ⟨[],c,rfl,hl,rfl⟩
  | signal at_ fault => exact signal_threaded hl h
  | sigaction act => cases hop

/-- Calls one after the other are one of the interleavings. -/
theorem run_threaded (hl : c.lock = .free) {ops : List (Op F)}
    (hops : Along World.step Threaded c.world ops) {w : World F}
    (h : run World.step c.world ops = some w) :
    ∃ es c', run Threads.step c es = some c' ∧ c'.lock = .free ∧ c'.world = w := by
  induction ops generalizing c with
  | nil =>
    cases h
    exact ⟨[],c,rfl,hl,rfl⟩
  | cons op ops ih =>
    obtain ⟨w₁,hs,hrest⟩ := run_cons_eq_some h
    obtain ⟨es₁,c₁,hr₁,hl₁,rfl⟩ := step_threaded hl hops.1 hs
    obtain ⟨es₂,c₂,hr₂,hl₂,hw₂⟩ := ih hl₁ (hops.2 _ hs) hrest
    exact ⟨es₁ ++ es₂,c₂,by rw [run_append_some hr₁,hr₂],hl₂,hw₂⟩

end Steps

end Pprof
