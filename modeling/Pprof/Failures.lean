import Pprof.LifeCycle
set_option autoImplicit false

/-! What errors and panics leave behind. Here any call may fail at any time, and a state
is reachable whatever went wrong before. -/

namespace Pprof
open Memory Runs

section Failing
variable {F : Type} [Layout (Entry (UnresolvedFrames F))] [Target]

def Owned (w : World F) : Prop :=
  w.guards = [] ∨ ∃ timer p act, w.guards = [⟨some timer⟩] ∧ w.PROFILER = some (.ok p) ∧
    p.running = true ∧ p.old_sigaction = some act

def Stranded (w : World F) : Prop :=
  w.guards = [] ∧ ∃ p, w.PROFILER = some (.ok p) ∧ p.running = true

theorem Stranded.build {w : World F} (h : Stranded w) (b : ProfilerGuardBuilder)
    (faults : BuildFaults) (now : Clock) :
    ∃ w', b.build w faults now = (.ok (.error .Running),w') ∧ Stranded w' := by
  obtain ⟨hg,p,hp,hrun⟩ := h
  have ht : trigger_lazy w.PROFILER faults.create = .ok p := by rw [hp]; rfl
  exact ⟨_,build_running ht hrun now,hg,_,rfl,hrun⟩

theorem stop_error {p p' : Profiler F} {os os' : Os} {faults : StopFaults} {err : Error}
    (hrun : p.running = true) (h : p.stop os faults = (.error err,p',os')) :
    p'.running = true ∧ p'.old_sigaction = none ∧
      ((p' = p ∧ os'.sigprof = os.sigprof) ↔ p.old_sigaction = none ∧ p.sample_counter = 0) := by
  obtain ⟨data,counter,old,running,on_stack,segments⟩ := p
  obtain rfl : running = true := hrun
  cases old with
  | none =>
    cases hc : Collector.new (T := UnresolvedFrames F) faults.create with
    | ok data => simp [Profiler.stop,Profiler.unregister_signal_handler,Profiler.init,hc] at h
    | error e =>
      simp only [Profiler.stop,Profiler.unregister_signal_handler,Profiler.init,hc,if_true] at h
      cases h
      simp [eq_comm]
  | some act =>
    cases hf : faults.restore with
    | true =>
      simp only [Profiler.stop,Profiler.unregister_signal_handler,Os.sigaction,hf,if_true] at h
      cases h
      simp
    | false =>
      cases hc : Collector.new (T := UnresolvedFrames F) faults.create with
      | ok data =>
        simp [Profiler.stop,Profiler.unregister_signal_handler,Os.sigaction,hf,Profiler.init,hc]
          at h
      | error e =>
        simp only [Profiler.stop,Profiler.unregister_signal_handler,Os.sigaction,hf,
          Profiler.init,hc,if_true] at h
        cases h
        simp

theorem stop_any_os (p : Profiler F) (os os' : Os) (faults : StopFaults) :
    (p.stop os faults).1 = (p.stop os' faults).1 ∧
      (p.stop os faults).2.1 = (p.stop os' faults).2.1 := by
  obtain ⟨data,counter,old,running,on_stack,segments⟩ := p
  obtain ⟨restore,create⟩ := faults
  cases running with
  | false => exact ⟨rfl,rfl⟩
  | true =>
    cases old with
    | none => exact ⟨rfl,rfl⟩
    | some act => cases restore <;> exact ⟨rfl,rfl⟩

variable [Frame F] [DefaultHasher]

theorem owned_step (w : World F) (op : Op F) (w' : World F) (h : Owned w)
    (hs : w.step op = some w') : Owned w' := by
  cases op with
  | build b faults now =>
    rcases h with hg | ⟨timer,p,act,hg,hp,hrun,ha⟩
    · rcases build_cases b w faults now with ⟨err,-,hb⟩ | ⟨p,-,⟨-,hb⟩ | ⟨-,-,hb⟩ | ⟨-,-,-,hb⟩ |
        ⟨-,-,-,timer,hb⟩⟩ <;> simp only [World.step,hb] at hs <;> cases hs
      · exact .inl hg
      · exact .inl hg
      · exact .inl hg
      · exact .inl hg
      · exact .inr ⟨timer,_,w.os.sigprof,by simp [hg],rfl,rfl,rfl⟩
    · have ht : trigger_lazy w.PROFILER faults.create = .ok p := by rw [hp]; rfl
      simp only [World.step,build_running ht hrun now] at hs
      cases hs
      exact .inr ⟨timer,_,act,hg,rfl,hrun,ha⟩
  | drop i faults =>
    obtain ⟨guard,hi,rfl⟩ := step_drop hs
    have herase : w.guards.eraseIdx i = [] := by
      rcases h with hg | ⟨timer,p,act,hg,-⟩
      · rw [hg]
        rfl
      · exact eraseIdx_singleton hg hi
    exact .inl ((drop_guards guard _ faults).trans herase)
  | report i =>
    obtain ⟨-,rfl⟩ := step_report hs
    exact h
  | signal at_ fault =>
    obtain ⟨profiler,profiler',hprof,-,hh,rfl⟩ := step_signal hs
    rcases h with hg | ⟨timer,p,act,hg,hp,hrun,ha⟩
    · exact .inl hg
    · rw [hp] at hprof
      cases hprof
      obtain ⟨p',rfl,hr,ho⟩ := handler_keeps hh
      exact .inr ⟨timer,p',act,hg,rfl,hr.trans hrun,ho.trans ha⟩
  | sigaction act =>
    cases hs
    exact h

theorem stranded_step (w : World F) (op : Op F) (w' : World F) (h : Stranded w)
    (hs : w.step op = some w') : Stranded w' := by
  cases op with
  | build b faults now =>
    obtain ⟨w₁,hb,h₁⟩ := h.build b faults now
    simp only [World.step,hb] at hs
    cases hs
    exact h₁
  | drop i faults => simp [World.step,h.1] at hs
  | report i => simp [World.step,h.1] at hs
  | signal at_ fault =>
    obtain ⟨hg,p,hp,hrun⟩ := h
    obtain ⟨profiler,profiler',hprof,-,hh,rfl⟩ := step_signal hs
    rw [hp] at hprof
    cases hprof
    obtain ⟨p',rfl,hr,-⟩ := handler_keeps hh
    exact ⟨hg,p',rfl,hr.trans hrun⟩
  | sigaction act =>
    cases hs
    exact h

theorem owned_reachable {w₀ w : World F} (h₀ : w₀.Fresh) (hr : Reachable World.step w₀ w) :
    Owned w := hr.invariant owned_step (.inl h₀.guards)

/-- A rejected build leaves the running session alone only if it asks for the settings
that this session has. -/
theorem rejected_build_keeps_iff {w₀ w : World F} (h₀ : w₀.Fresh)
    (hr : Reachable World.step w₀ w) (hg : w.guards ≠ []) (b : ProfilerGuardBuilder)
    (faults : BuildFaults) (now : Clock) :
    ∃ p, w.PROFILER = some (.ok p) ∧
      ((∀ err w', b.build w faults now = (.ok (.error err),w') → w'.PROFILER = some (.ok p)) ↔
        (Target.frame_pointer = true → b.on_stack = p.on_stack) ∧
          b.blocklist_segments = p.blocklist_segments) := by
  rcases owned_reachable h₀ hr with hempty | ⟨timer,p,act,-,hp,hrun,-⟩
  · exact absurd hempty hg
  · have ht : trigger_lazy w.PROFILER faults.create = .ok p := by rw [hp]; rfl
    have hb := build_running (b := b) ht hrun now
    refine ⟨p,hp,⟨fun h => ?_,fun h err w' he => ?_⟩⟩
    · have hw := h _ _ hb
      simp only [Option.some.injEq,Except.ok.injEq] at hw
      refine ⟨fun hfp => ?_,congrArg Profiler.blocklist_segments hw⟩
      have hon := congrArg Profiler.on_stack hw
      simpa [ProfilerGuardBuilder.configure,hfp] using hon
    · rw [hb] at he
      obtain ⟨-,rfl⟩ := Prod.mk.inj he
      have hon : (if Target.frame_pointer = true then b.on_stack else p.on_stack) = p.on_stack := by
        split
        · rename_i hfp
          exact h.1 hfp
        · rfl
      simp only [ProfilerGuardBuilder.configure,h.2,hon]

/-- What a build owes its caller when it returns no guard: nothing has been started, so
that the next build can. -/
def NotStranded (r : Except Panic (Except Error ProfilerGuard)) (w w' : World F) : Prop :=
  (∃ guard, r = .ok (.ok guard)) ∨
    (w'.running = false ∧ w'.os.sigprof = w.os.sigprof ∧
      ∀ (b : ProfilerGuardBuilder) (now : Clock), 1 ≤ b.frequency.toInt →
        b.frequency.toInt ≤ 1000000 → ∃ guard, (b.build w' ⟨false,false⟩ now).1 = .ok (.ok guard))

omit [Frame F] [DefaultHasher] in
/-- A frequency of zero panics after the start, and a profiler that is running without a
guard, or that could not be created, refuses every build. -/
theorem build_not_stranded_iff (b : ProfilerGuardBuilder) (w : World F) (faults : BuildFaults)
    (now : Clock) :
    NotStranded (b.build w faults now).1 w (b.build w faults now).2 ↔
      ∃ p, trigger_lazy w.PROFILER faults.create = .ok p ∧ p.running = false ∧
        (b.frequency ≠ 0 ∨ faults.sigaction = true) := by
  have h₁ : 1 ≤ ProfilerGuardBuilder.default.frequency.toInt := by decide
  have h₂ : ProfilerGuardBuilder.default.frequency.toInt ≤ 1000000 := by decide
  rcases build_cases b w faults now with ⟨err,ht,hb⟩ | ⟨p,ht,⟨hp,hb⟩ | ⟨hp,hs,hb⟩ |
    ⟨hp,hs,hf,hb⟩ | ⟨hp,hs,hf,timer,hb⟩⟩
  · rw [hb]
    constructor
    · rintro (⟨guard,hg⟩ | ⟨-,-,hn⟩)
      · cases hg
      · obtain ⟨guard,hg⟩ := hn _ now h₁ h₂
        cases hg
    · rintro ⟨p,hp,-⟩
      rw [ht] at hp
      cases hp
  · rw [hb]
    constructor
    · rintro (⟨guard,hg⟩ | ⟨hrun,-⟩)
      · cases hg
      · simp [World.running,hp] at hrun
    · rintro ⟨q,hq,hrun,-⟩
      rw [ht] at hq
      cases hq
      rw [hp] at hrun
      cases hrun
  · rw [hb]
    refine ⟨fun _ => ⟨p,ht,hp,.inr hs⟩,fun _ => .inr ⟨by simp [World.running,hp],rfl,?_⟩⟩
    intro b₂ now₂ hf₁ hf₂
    have ht₂ : trigger_lazy (some (.ok (b.configure p))) (⟨false,false⟩ : BuildFaults).create =
      .ok (b.configure p) := rfl
    obtain ⟨timer,hb₂⟩ := build_guard (b := b₂)
      (w := { w with PROFILER := some (.ok (b.configure p)) }) ht₂ hp rfl
      (frequency_ne_zero hf₁) now₂
    exact ⟨_,by rw [hb₂]⟩
  · rw [hb]
    constructor
    · rintro (⟨guard,hg⟩ | ⟨hrun,-⟩)
      · cases hg
      · cases hrun
    · rintro ⟨q,-,-,hq⟩
      rcases hq with hq | hq
      · exact absurd hf hq
      · rw [hs] at hq
        cases hq
  · rw [hb]
    exact ⟨fun _ => ⟨p,ht,hp,.inl hf⟩,fun _ => .inl ⟨_,rfl⟩⟩

/-- A `stop` that fails is atomic only for a profiler without a saved action and without
samples. That of a guard is never like that: its drop leaves the profiler running for
good, and every later build is refused. -/
theorem failing_stop_iff {w₀ w : World F} (h₀ : w₀.Fresh) (hr : Reachable World.step w₀ w)
    {p p' : Profiler F} (hp : w.PROFILER = some (.ok p)) (hrun : p.running = true) {os os' : Os}
    {faults : StopFaults} {err : Error} (hs : p.stop os faults = (.error err,p',os')) :
    (((p' = p ∧ os'.sigprof = os.sigprof) ∨ p'.running = false) ↔
      p.old_sigaction = none ∧ p.sample_counter = 0) ∧
    ∀ guard ∈ w.guards, p.old_sigaction ≠ none ∧
      ∀ ops w', run World.step (guard.drop { w with guards := [] } faults) ops = some w' →
        w'.guards = [] ∧ ∀ (b : ProfilerGuardBuilder) (f : BuildFaults) (now : Clock),
          (b.build w' f now).1 = .ok (.error .Running) := by
  obtain ⟨hrun',hold,hiff⟩ := stop_error hrun hs
  refine ⟨?_,fun guard hg => ?_⟩
  · rw [hrun',← hiff]
    simp
  · rcases owned_reachable h₀ hr with hempty | ⟨timer,q,act,hgs,hq,-,ha⟩
    · rw [hempty] at hg
      cases hg
    · rw [hp] at hq
      cases hq
      rw [hgs,List.mem_singleton] at hg
      subst hg
      refine ⟨by simp [ha],fun ops w' hops => ?_⟩
      have hprof : (p.stop (Timer.drop w.os) faults).2.1 = p' := by
        rw [(stop_any_os p (Timer.drop w.os) os faults).2,hs]
      have hstr : Stranded
          ((⟨some timer⟩ : ProfilerGuard).drop { w with guards := [] } faults) := by
        refine ⟨drop_guards _ _ _,p',?_,hrun'⟩
        simp only [ProfilerGuard.drop,hp,hprof]
      have hw' : Stranded w' := Reachable.invariant stranded_step hstr ⟨ops,hops⟩
      refine ⟨hw'.1,fun b f now => ?_⟩
      obtain ⟨w₁,hb,-⟩ := hw'.build b f now
      rw [hb]

end Failing

theorem rejected_build_keeps_iff_default :
    letI := plainTarget
    letI := plainHasher
    letI := plainLayout
    ∃ (w : World PlainFrame) (p : Profiler PlainFrame), w.guards ≠ [] ∧
      w.PROFILER = some (.ok p) ∧
      ((∀ err w', ProfilerGuardBuilder.build ⟨99,true,[]⟩ w ⟨false,false⟩ plainClock =
          (.ok (.error err),w') → w'.PROFILER = some (.ok p)) ↔
        (Target.frame_pointer = true → true = p.on_stack) ∧ [] = p.blocklist_segments) := by
  let _ := plainTarget
  let _ := plainHasher
  let _ := plainLayout
  obtain ⟨w,hrun,timer,p,hg,-⟩ := plainWorld_build
  have hne : w.guards ≠ [] := by simp [hg]
  obtain ⟨q,hq,hiff⟩ := rejected_build_keeps_iff plainWorld_fresh ⟨_,hrun⟩ hne ⟨99,true,[]⟩
    ⟨false,false⟩ plainClock
  exact ⟨w,q,hne,hq,hiff⟩

/-- The session samples all code until a second build, itself refused, blocks the
addresses from 2 to 4 for it. -/
theorem rejected_build_disturbs :
    letI := plainTarget
    letI := plainHasher
    letI := plainLayout
    ∃ (w w' : World PlainFrame) (p p' : Profiler PlainFrame), run World.step plainWorld
        [.build ProfilerGuardBuilder.default ⟨false,false⟩ plainClock] = some w ∧
      w.guards ≠ [] ∧
      ProfilerGuardBuilder.build ⟨99,false,[(1,5)]⟩ w ⟨false,false⟩ plainClock =
        (.ok (.error .Running),w') ∧
      w.PROFILER = some (.ok p) ∧ w'.PROFILER = some (.ok p') ∧
      p.is_blocklisted 3 = false ∧ p'.is_blocklisted 3 = true := by
  let _ := plainTarget
  let _ := plainHasher
  let _ := plainLayout
  obtain ⟨w,hrun,timer,p,hg,hp,hrunning,hb,-⟩ := plainWorld_build
  have ht : trigger_lazy w.PROFILER (⟨false,false⟩ : BuildFaults).create = .ok p := by rw [hp]; rfl
  have hbuild := build_running (b := ⟨99,false,[(1,5)]⟩) ht hrunning plainClock
  refine ⟨w,_,p,_,hrun,by simp [hg],hbuild,hp,rfl,?_,?_⟩
  · simp [Profiler.is_blocklisted,hb]
  · simp only [Profiler.is_blocklisted,ProfilerGuardBuilder.configure]
    decide

theorem build_zero_strands :
    letI := plainTarget
    letI := plainHasher
    letI := plainLayout
    ∃ w : World PlainFrame, ProfilerGuardBuilder.build ⟨0,false,[]⟩ plainWorld ⟨false,false⟩
        plainClock = (.error .divideByZero,w) ∧
      ¬ NotStranded (.error .divideByZero) plainWorld w ∧
      (ProfilerGuardBuilder.default.build w ⟨false,false⟩ plainClock).1 =
        .ok (.error .Running) := by
  let _ := plainTarget
  let _ := plainHasher
  let _ := plainLayout
  obtain ⟨p,hp⟩ := profiler_new (F := PlainFrame)
  have hrun : p.running = false := by
    cases hp
    rfl
  have ht : trigger_lazy (plainWorld : World PlainFrame).PROFILER
      (⟨false,false⟩ : BuildFaults).create = .ok p := hp
  have hb := build_zero (b := ⟨0,false,[]⟩) ht hrun rfl rfl plainClock
  refine ⟨_,hb,?_,?_⟩
  · rintro (⟨guard,hg⟩ | ⟨hr,-⟩)
    · cases hg
    · cases hr
  · have ht₂ : trigger_lazy (some (.ok (ProfilerGuardBuilder.started ⟨0,false,[]⟩ p plainOs)))
        (⟨false,false⟩ : BuildFaults).create =
      .ok (ProfilerGuardBuilder.started ⟨0,false,[]⟩ p plainOs) := rfl
    rw [build_running ht₂ rfl]

theorem failing_stop_iff_default :
    letI := plainTarget
    letI := plainHasher
    letI := plainLayout
    ∃ (w : World PlainFrame) (p p' : Profiler PlainFrame) (os' : Os),
      w.PROFILER = some (.ok p) ∧ p.stop w.os ⟨true,false⟩ = (.error .NixError,p',os') ∧
      (((p' = p ∧ os'.sigprof = w.os.sigprof) ∨ p'.running = false) ↔
        p.old_sigaction = none ∧ p.sample_counter = 0) := by
  let _ := plainTarget
  let _ := plainHasher
  let _ := plainLayout
  obtain ⟨w,hrun,timer,p,hg,hp,hrunning,-,ha⟩ := plainWorld_build
  have hs : p.stop w.os ⟨true,false⟩ =
      (.error .NixError,{ p with old_sigaction := none },w.os) := by
    simp [Profiler.stop,hrunning,Profiler.unregister_signal_handler,ha,Os.sigaction]
  obtain ⟨hiff,-⟩ := failing_stop_iff plainWorld_fresh ⟨_,hrun⟩ hp hrunning hs
  exact ⟨w,p,_,_,hp,hs,hiff⟩

theorem failing_stop_strands :
    letI := plainTarget
    letI := plainHasher
    letI := plainLayout
    ∃ w : World PlainFrame, run World.step plainWorld
        [.build ProfilerGuardBuilder.default ⟨false,false⟩ plainClock,.drop 0 ⟨true,false⟩] =
          some w ∧
      w.guards = [] ∧ w.running = true ∧
      (ProfilerGuardBuilder.default.build w ⟨false,false⟩ plainClock).1 =
        .ok (.error .Running) := by
  let _ := plainTarget
  let _ := plainHasher
  let _ := plainLayout
  obtain ⟨w,hrun,timer,p,hg,hp,hrunning,-,ha⟩ := plainWorld_build
  have hdrop : (⟨some timer⟩ : ProfilerGuard).drop { w with guards := [] } ⟨true,false⟩ =
      { w with
        PROFILER := some (.ok { p with old_sigaction := none })
        os := Timer.drop w.os
        guards := [] } := by
    simp [ProfilerGuard.drop,hp,Profiler.stop,hrunning,Profiler.unregister_signal_handler,ha,
      Os.sigaction]
  have hs : w.step (.drop 0 ⟨true,false⟩) =
      some ((⟨some timer⟩ : ProfilerGuard).drop { w with guards := [] } ⟨true,false⟩) := by
    simp [World.step,hg]
  rw [hdrop] at hs
  have hstr : Stranded ({ w with
      PROFILER := some (.ok { p with old_sigaction := none })
      os := Timer.drop w.os
      guards := [] } : World PlainFrame) := ⟨rfl,_,rfl,hrunning⟩
  obtain ⟨w₁,hb,-⟩ := hstr.build ProfilerGuardBuilder.default ⟨false,false⟩ plainClock
  refine ⟨_,run_append_some hrun [.drop 0 ⟨true,false⟩] |>.trans (run_cons_some hs []),rfl,
    hrunning,?_⟩
  rw [hb]

end Pprof
