import Pprof.Interleaving
import Pprof.LifeCycle
set_option autoImplicit false

/-! What holds between the pieces of the calls, whatever comes between them and whatever
fails. -/

namespace Pprof
open Memory Runs

section Phases
variable {F : Type} [Layout (Entry (UnresolvedFrames F))] [Target]

/-- Where the guards, the lock, the flag, the saved action and the timer stand to each
other; `act` is the action from before the first session. Only a guard whose drop has not
begun keeps the timer armed. -/
inductive Threads.Phase (act : SigAction) (c : Threads F) : Prop where
  | idle (lock : c.lock = .free) (guards : c.world.guards = [])
      (sigprof : c.world.running = false → c.world.os.sigprof = act)
      (itimer : c.world.os.Disarmed)
  | building (frequency : Int32) (now : Clock) (lock : c.lock = .building frequency now)
      (guards : c.world.guards = []) (p : Profiler F) (profiler : c.world.PROFILER = some (.ok p))
      (running : p.running = true) (saved : p.old_sigaction = some act)
      (handler : c.world.os.sigprof.handler = .perf_signal_handler)
      (itimer : c.world.os.Disarmed)
  | profiling (lock : c.lock = .free) (timer : Timer) (guards : c.world.guards = [⟨some timer⟩])
      (p : Profiler F) (profiler : c.world.PROFILER = some (.ok p)) (running : p.running = true)
      (saved : p.old_sigaction = some act)
      (handler : c.world.os.sigprof.handler = .perf_signal_handler)
  | disarmed (lock : c.lock = .free) (guards : c.world.guards = [⟨none⟩]) (p : Profiler F)
      (profiler : c.world.PROFILER = some (.ok p)) (running : p.running = true)
      (saved : p.old_sigaction = some act) (itimer : c.world.os.Disarmed)
  | dropping (lock : c.lock = .dropping 0) (guards : c.world.guards = [⟨none⟩]) (p : Profiler F)
      (profiler : c.world.PROFILER = some (.ok p)) (running : p.running = true)
      (sigprof : c.world.os.sigprof = act) (itimer : c.world.os.Disarmed)

theorem World.Fresh.phase {w : World F} (h : w.Fresh) : w.threads.Phase w.os.sigprof :=
  .idle rfl h.guards (fun _ => rfl) h.itimer

theorem Threads.Phase.same {act : SigAction} {c c' : Threads F} (h : c.Phase act)
    (hl : c'.lock = c.lock) (hg : c'.world.guards = c.world.guards) (ho : c'.world.os = c.world.os)
    (hr : c'.world.running = c.world.running)
    (hp : ∀ p, c.world.PROFILER = some (.ok p) → ∃ p', c'.world.PROFILER = some (.ok p') ∧
      p'.running = p.running ∧ p'.old_sigaction = p.old_sigaction) : c'.Phase act := by
  cases h with
  | idle lock guards sigprof itimer =>
    rw [← ho] at sigprof itimer
    exact .idle (hl.trans lock) (hg.trans guards) (fun hn => sigprof (by rw [← hr,hn])) itimer
  | building f now lock guards p profiler running saved handler itimer =>
    obtain ⟨p',hp',hr',hs'⟩ := hp p profiler
    rw [← ho] at handler itimer
    exact .building f now (hl.trans lock) (hg.trans guards) p' hp' (hr'.trans running)
      (hs'.trans saved) handler itimer
  | profiling lock timer guards p profiler running saved handler =>
    obtain ⟨p',hp',hr',hs'⟩ := hp p profiler
    rw [← ho] at handler
    exact .profiling (hl.trans lock) timer (hg.trans guards) p' hp' (hr'.trans running)
      (hs'.trans saved) handler
  | disarmed lock guards p profiler running saved itimer =>
    obtain ⟨p',hp',hr',hs'⟩ := hp p profiler
    rw [← ho] at itimer
    exact .disarmed (hl.trans lock) (hg.trans guards) p' hp' (hr'.trans running)
      (hs'.trans saved) itimer
  | dropping lock guards p profiler running sigprof itimer =>
    obtain ⟨p',hp',hr',-⟩ := hp p profiler
    rw [← ho] at sigprof itimer
    exact .dropping (hl.trans lock) (hg.trans guards) p' hp' (hr'.trans running) sigprof itimer

theorem trigger_running {w : World F} {fails : Bool} {p : Profiler F}
    (h : trigger_lazy w.PROFILER fails = .ok p) : p.running = w.running := by
  cases hp : w.PROFILER with
  | none =>
    rw [hp] at h
    cases fails <;> cases h
    simp only [World.running,hp]
  | some profiler =>
    rw [hp] at h
    cases h
    simp only [World.running,hp]

theorem trigger_error {w : World F} {fails : Bool} {err : Error}
    (h : trigger_lazy w.PROFILER fails = .error err) : w.running = false := by
  cases hp : w.PROFILER with
  | none => simp only [World.running,hp]
  | some profiler =>
    rw [hp] at h
    cases h
    simp only [World.running,hp]

variable [Frame F] [DefaultHasher] {act : SigAction}

theorem phase_build {c c' : Threads F} (h : c.Phase act) {b : ProfilerGuardBuilder}
    {faults : BuildFaults} {now : Clock} (hs : c.step (.build b faults now) = some c') :
    c'.Phase act := by
  obtain ⟨hl,hc⟩ := step_build hs
  -- with a guard alive the profiler is running, and stays as it is but for its settings
  have hkeep : ∀ p, c.world.PROFILER = some (.ok p) → p.running = true →
      c' = { c with world := { c.world with PROFILER := some (.ok (b.configure p)) } } := by
    intro p hp hr
    rw [hp] at hc
    rcases hc with ⟨err,ht,-⟩ | ⟨q,ht,rfl | ⟨hq,-⟩⟩
    · cases ht
    · cases ht
      rfl
    · cases ht
      rw [hr] at hq
      cases hq
  cases h with
  | idle _ hg hsig hi =>
    rcases hc with ⟨err,ht,rfl⟩ | ⟨p,ht,rfl | ⟨hp,rfl⟩⟩
    · exact .idle hl hg (fun _ => hsig (trigger_error ht)) hi
    · exact .idle hl hg (fun hr => hsig ((trigger_running ht).symm.trans hr)) hi
    · have hsaved := hsig ((trigger_running ht).symm.trans hp)
      exact .building _ _ rfl hg _ rfl rfl (congrArg some hsaved) rfl hi
  | building _ _ hl' | dropping hl' =>
    rw [hl] at hl'
    cases hl'
  | profiling _ timer hg p hp hr hsaved hh =>
    rw [hkeep p hp hr]
    exact .profiling hl timer hg _ rfl hr hsaved hh
  | disarmed _ hg p hp hr hsaved hi =>
    rw [hkeep p hp hr]
    exact .disarmed hl hg _ rfl hr hsaved hi

theorem phase_arm {c c' : Threads F} (h : c.Phase act) (hs : c.step .arm = some c') :
    c'.Phase act := by
  obtain ⟨frequency,now,hl,hc⟩ := step_arm hs
  cases h with
  | idle hl' | profiling hl' | disarmed hl' | dropping hl' =>
    rw [hl] at hl'
    cases hl'
  | building _ _ _ hg p hp hr hsaved hh hi =>
    rcases hc with ⟨timer,os,hsig,rfl⟩ | rfl
    · exact .profiling rfl timer (by simp [hg]) p hp hr hsaved (by rw [← hh,← hsig])
    · refine .idle rfl hg (fun hn => ?_) hi
      simp [World.running,hp,hr] at hn

theorem phase_disarm {c c' : Threads F} (h : c.Phase act) {i : Nat}
    (hs : c.step (.disarm i) = some c') : c'.Phase act := by
  obtain ⟨⟨t,hi⟩,rfl⟩ := step_disarm hs
  have hd := drop_disarmed c.world.os
  cases h with
  | idle _ hg | building _ _ _ hg =>
    rw [hg] at hi
    cases hi
  | profiling hl timer hg p hp hr hsaved =>
    rw [hg] at hi
    cases i with
    | zero => exact .disarmed hl (by simp [hg]) p hp hr hsaved hd
    | succ i => simp at hi
  | disarmed _ hg | dropping _ hg =>
    rw [hg] at hi
    cases i <;> simp at hi

theorem Threads.Phase.restorable {c c' : Threads F} (h : c.Phase act) {i : Nat} {fails : Bool}
    (hs : c.step (.restore i fails) = some c') :
    ∃ p, c.world.PROFILER = some (.ok p) ∧ p.running = true ∧ p.old_sigaction = some act ∧
      i = 0 ∧ c.world.guards = [⟨none⟩] ∧ c.world.os.Disarmed := by
  obtain ⟨hl,hi,-⟩ := step_restore hs
  cases h with
  | idle _ hg =>
    rw [hg] at hi
    cases hi
  | building _ _ hl' | dropping hl' =>
    rw [hl] at hl'
    cases hl'
  | profiling _ timer hg =>
    rw [hg] at hi
    cases i <;> simp at hi
  | disarmed _ hg p hp hr hsaved hd =>
    refine ⟨p,hp,hr,hsaved,?_,hg,hd⟩
    rw [hg] at hi
    cases i with
    | zero => rfl
    | succ i => simp at hi

theorem phase_restore {c c' : Threads F} (h : c.Phase act) {i : Nat} {fails : Bool}
    (hs : c.step (.restore i fails) = some c') : c'.Phase act := by
  obtain ⟨p,hp,hr,hsaved,rfl,hg,hd⟩ := h.restorable hs
  obtain ⟨hl,-,⟨q,hq,-,-,rfl⟩ | ⟨q,-,hrun,-,rfl⟩ | ⟨hn,-⟩⟩ := step_restore hs
  · rw [hp] at hq
    cases hq
    exact .dropping rfl hg _ rfl hr (by simp [hsaved]) hd
  · refine .idle hl (by simp [hg]) (fun hn => ?_) hd
    simp [World.running,hrun] at hn
  · have hf := hn p hp
    rw [hr] at hf
    cases hf

theorem phase_reset {c c' : Threads F} (h : c.Phase act) {fails : Bool}
    (hs : c.step (.reset fails) = some c') : c'.Phase act := by
  obtain ⟨i,p,hl,-,rfl⟩ := step_reset hs
  cases h with
  | idle hl' | building _ _ hl' | profiling hl' | disarmed hl' =>
    rw [hl] at hl'
    cases hl'
  | dropping hl' hg q hq hr hsig hi =>
    rw [hl] at hl'
    cases hl'
    exact .idle rfl (by simp [hg]) (fun _ => hsig) hi

theorem phase_sample {c c' : Threads F} (h : c.Phase act) {i : Nat} {fault : Option Nat}
    (hs : c.step (.sample i fault) = some c') : c'.Phase act := by
  obtain ⟨r,profiler,profiler',-,-,hp,hh,rfl⟩ := step_sample hs
  cases profiler with
  | error err =>
    cases hh
    refine h.same rfl rfl rfl (by simp [World.running,hp]) fun p hq => ?_
    rw [hp] at hq
    cases hq
  | ok p =>
    obtain ⟨p',rfl,hr,ho⟩ := handler_keeps hh
    refine h.same rfl rfl rfl (by simp [World.running,hp,hr]) fun q hq => ⟨p',rfl,?_⟩
    rw [hp] at hq
    cases hq
    exact ⟨hr,ho⟩

theorem phase_step (c : Threads F) (e : Event F) (c' : Threads F) (h : c.Phase act)
    (hs : c.step e = some c') : c'.Phase act := by
  cases e with
  | build b faults now => exact phase_build h hs
  | arm => exact phase_arm h hs
  | disarm i => exact phase_disarm h hs
  | restore i fails => exact phase_restore h hs
  | reset fails => exact phase_reset h hs
  | sample i fault => exact phase_sample h hs
  | expire | deliver at_ | raise at_ | give_up i =>
    obtain ⟨pending,handlers,rfl⟩ := step_aside rfl hs
    exact h.same rfl rfl rfl rfl fun p hp => ⟨p,hp,rfl,rfl⟩

omit [Frame F] [DefaultHasher] in
theorem Threads.Phase.running_of_guard {c : Threads F} (h : c.Phase act)
    (hg : c.world.guards ≠ []) :
    ∃ p, c.world.PROFILER = some (.ok p) ∧ p.running = true := by
  cases h with
  | idle _ hg' | building _ _ _ hg' => exact absurd hg' hg
  | profiling _ _ _ p hp hr | disarmed _ _ p hp hr | dropping _ _ p hp hr => exact ⟨p,hp,hr⟩

omit [Frame F] [DefaultHasher] in
theorem Threads.Phase.handler_of_armed {c : Threads F} (h : c.Phase act)
    (ha : ¬ c.world.os.Disarmed) : c.world.os.sigprof.handler = .perf_signal_handler := by
  cases h with
  | idle _ _ _ hi | building _ _ _ _ _ _ _ _ _ hi => exact absurd hi ha
  | profiling _ _ _ _ _ _ _ hh => exact hh
  | disarmed _ _ _ _ _ _ hi | dropping _ _ _ _ _ _ hi => exact absurd hi ha

end Phases

end Pprof
