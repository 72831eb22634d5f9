import Pprof.CollectorCounts
import Pprof.ProfilerGuard
set_option autoImplicit false

/-! The life cycle of guards while the OS does what it is asked: the flag, the saved
action, the installed action, the timer and the collector stay in step. -/

namespace Pprof
open Memory Runs

theorem frequency_ne_zero {f : Int32} (h : 1 ≤ f.toInt) : f ≠ 0 := by
  rintro rfl
  exact absurd h (by decide)

section Cycle
variable {F : Type} [Layout (Entry (UnresolvedFrames F))] [Target]

def World.running (w : World F) : Bool :=
  match w.PROFILER with
  | some (.ok p) => p.running
  | _ => false

def World.Empty (w : World F) : Prop := ∃ p, w.PROFILER = some (.ok p) ∧ p.data.Empty

/-- No guard is live; `act` is the action of whoever else cares for SIGPROF. -/
structure World.Idle (w : World F) (act : SigAction) : Prop where
  guards : w.guards = []
  profiler : w.PROFILER = none ∨ ∃ p, w.PROFILER = some (.ok p) ∧ p.running = false
  sigprof : w.os.sigprof = act
  handler : act.handler ≠ .perf_signal_handler
  itimer : w.os.Disarmed

/-- One guard is live; `act` was installed when it was built. -/
structure World.Profiling (w : World F) (act : SigAction) : Prop where
  guards : ∃ timer, w.guards = [⟨some timer⟩]
  profiler : ∃ p, w.PROFILER = some (.ok p) ∧ p.running = true ∧ p.old_sigaction = some act
  sigprof : w.os.sigprof.handler = .perf_signal_handler
  handler : act.handler ≠ .perf_signal_handler
  itimer : w.os.Armed

/-- Builds with a frequency that the timer can keep, no failing call, and no other code
that sets the SIGPROF action during a session or installs the handler itself. -/
def Undisturbed (w : World F) : Op F → Prop
  | .build b faults _ => 1 ≤ b.frequency.toInt ∧ b.frequency.toInt ≤ 1000000 ∧
      faults = ⟨false,false⟩
  | .drop _ faults => faults = ⟨false,false⟩
  | .report _ => True
  | .signal _ _ => True
  | .sigaction act => w.guards = [] ∧ act.handler ≠ .perf_signal_handler

def Op.isDrop : Op F → Bool
  | .drop .. => true
  | _ => false

theorem fresh_idle {w : World F} (h : w.Fresh) : w.Idle w.os.sigprof :=
  ⟨h.guards,.inl h.PROFILER,rfl,h.sigprof,h.itimer⟩

theorem trigger_ok {profiler : Option (Except Error (Profiler F))}
    (h : profiler = none ∨ ∃ p, profiler = some (.ok p) ∧ p.running = false) :
    ∃ p, trigger_lazy profiler false = .ok p ∧ p.running = false := by
  rcases h with rfl | ⟨p,rfl,hp⟩
  · exact ⟨_,rfl,rfl⟩
  · exact ⟨p,rfl,hp⟩

theorem World.Idle.build {w : World F} {act : SigAction} (h : w.Idle act)
    {b : ProfilerGuardBuilder} (h₁ : 1 ≤ b.frequency.toInt) (h₂ : b.frequency.toInt ≤ 1000000)
    (now : Clock) :
    ∃ guard w', b.build w ⟨false,false⟩ now = (.ok (.ok guard),w') ∧
      ({ w' with guards := w'.guards ++ [guard] } : World F).Profiling act := by
  obtain ⟨p,hp,hrun⟩ := trigger_ok h.profiler
  have ht : trigger_lazy w.PROFILER (⟨false,false⟩ : BuildFaults).create = .ok p := hp
  obtain ⟨timer,hb⟩ := build_guard ht hrun rfl (frequency_ne_zero h₁) now
  obtain ⟨hv,hz⟩ := interval_valid h₁ h₂
  refine ⟨_,_,hb,⟨⟨timer,by simp [h.guards]⟩,⟨_,rfl,rfl,?_⟩,by simp [Profiler.handlerAction],
    h.handler,?_⟩⟩
  · simp [ProfilerGuardBuilder.started,h.sigprof]
  · simp only [Os.setitimer,if_pos (And.intro hv hv)]
    exact ⟨hz,hz⟩

theorem World.Profiling.build {w : World F} {act : SigAction} (h : w.Profiling act)
    (b : ProfilerGuardBuilder) (faults : BuildFaults) (now : Clock) :
    ∃ w', b.build w faults now = (.ok (.error .Running),w') ∧ w'.Profiling act := by
  obtain ⟨p,hp,hrun,ha⟩ := h.profiler
  have ht : trigger_lazy w.PROFILER faults.create = .ok p := by rw [hp]; rfl
  exact ⟨_,build_running ht hrun now,h.guards,⟨_,rfl,hrun,ha⟩,h.sigprof,h.handler,h.itimer⟩

theorem World.Profiling.drop {w : World F} {act : SigAction} (h : w.Profiling act) [Frame F]
    [DefaultHasher] {guard : ProfilerGuard} (hg : guard ∈ w.guards) :
    let w' := guard.drop { w with guards := [] } ⟨false,false⟩
    w'.Idle act ∧ w'.Empty := by
  obtain ⟨timer,ht⟩ := h.guards
  obtain ⟨p,hp,hrun,ha⟩ := h.profiler
  obtain ⟨data,hd,-⟩ := collector_new (T := UnresolvedFrames F)
  rw [ht,List.mem_singleton] at hg
  subst hg
  have hw : ({ w with guards := [] } : World F).PROFILER = some (.ok p) := hp
  have hd' := drop_started timer hw hrun ha hd
  rw [hd']
  exact ⟨⟨rfl,.inr ⟨_,rfl,rfl⟩,rfl,h.handler,drop_disarmed w.os⟩,_,rfl,collector_new_empty hd⟩

theorem World.Idle.running_eq {w : World F} {act : SigAction} (h : w.Idle act) :
    w.running = false := by
  rcases h.profiler with hp | ⟨p,hp,hrun⟩
  · simp [World.running,hp]
  · simp [World.running,hp,hrun]

theorem World.Profiling.running_eq {w : World F} {act : SigAction} (h : w.Profiling act) :
    w.running = true := by
  obtain ⟨p,hp,hrun,-⟩ := h.profiler
  simp [World.running,hp,hrun]

def InStep (w : World F) : Prop := (∃ act, w.Idle act) ∨ ∃ act, w.Profiling act

theorem InStep.flags {w : World F} (h : InStep w) : w.guards.length ≤ 1 ∧
    (w.guards ≠ [] ↔ w.running = true) ∧
    (w.guards ≠ [] ↔ w.os.sigprof.handler = .perf_signal_handler) ∧
    (w.guards ≠ [] ↔ w.os.Armed) := by
  rcases h with ⟨act,h⟩ | ⟨act,h⟩
  · have ha := not_armed_of_disarmed h.itimer
    simp [h.guards,h.running_eq,h.sigprof,h.handler,ha]
  · obtain ⟨timer,ht⟩ := h.guards
    simp [ht,h.running_eq,h.sigprof,h.itimer]

theorem InStep.refuses {w : World F} (h : InStep w) (hg : w.guards ≠ []) (b : ProfilerGuardBuilder)
    (now : Clock) : (b.build w ⟨false,false⟩ now).1 = .ok (.error .Running) := by
  rcases h with ⟨act,h⟩ | ⟨act,h⟩
  · exact absurd h.guards hg
  · obtain ⟨w',hb,-⟩ := h.build b ⟨false,false⟩ now
    rw [hb]

theorem InStep.idle {w : World F} (h : InStep w) (hg : w.guards = []) : ∃ act, w.Idle act := by
  rcases h with hi | ⟨act,h⟩
  · exact hi
  · obtain ⟨timer,ht⟩ := h.guards
    rw [hg] at ht
    cases ht

section Runs
variable [Frame F] [DefaultHasher]

theorem World.Profiling.step {w w' : World F} {act : SigAction} (h : w.Profiling act)
    {op : Op F} (hop : Undisturbed w op) (hs : w.step op = some w') :
    if op.isDrop then w'.Idle act ∧ w'.Empty else w'.Profiling act := by
  cases op with
  | build b faults now =>
    obtain ⟨w₁,hb,hp⟩ := h.build b faults now
    simp only [World.step,hb] at hs
    cases hs
    exact hp
  | drop i faults =>
    obtain rfl := hop
    obtain ⟨timer,ht⟩ := h.guards
    obtain ⟨guard,hg,rfl⟩ := step_drop hs
    rw [eraseIdx_singleton ht hg]
    exact h.drop (List.mem_of_getElem? hg)
  | report i =>
    obtain ⟨-,rfl⟩ := step_report hs
    exact h
  | signal at_ fault =>
    obtain ⟨p,hp,hrun,ha⟩ := h.profiler
    obtain ⟨profiler,profiler',hprof,-,hh,rfl⟩ := step_signal hs
    rw [hp] at hprof
    cases hprof
    obtain ⟨p',rfl,hr,ho⟩ := handler_keeps hh
    exact ⟨h.guards,⟨p',rfl,hr.trans hrun,ho.trans ha⟩,h.sigprof,h.handler,h.itimer⟩
  | sigaction a =>
    obtain ⟨timer,ht⟩ := h.guards
    rw [hop.1] at ht
    cases ht

theorem World.Idle.step {w w' : World F} {act : SigAction} (h : w.Idle act) {op : Op F}
    (hop : Undisturbed w op) (hs : w.step op = some w') :
    (∃ act', w'.Idle act') ∨ ∃ b faults now, op = .build b faults now ∧ w'.Profiling act := by
  cases op with
  | build b faults now =>
    obtain ⟨h₁,h₂,rfl⟩ := hop
    obtain ⟨guard,w₁,hb,hp⟩ := h.build h₁ h₂ now
    simp only [World.step,hb] at hs
    cases hs
    exact .inr ⟨b,_,now,rfl,hp⟩
  | drop i faults => simp [World.step,h.guards] at hs
  | report i => simp [World.step,h.guards] at hs
  | signal at_ fault =>
    obtain ⟨-,-,-,hh,-⟩ := step_signal hs
    rw [h.sigprof] at hh
    exact absurd hh h.handler
  | sigaction a =>
    cases hs
    exact .inl ⟨a,h.guards,h.profiler,rfl,hop.2,h.itimer⟩

theorem inStep_step (w : World F) (op : Op F) (w' : World F) (h : InStep w)
    (hop : Undisturbed w op) (hs : w.step op = some w') : InStep w' := by
  rcases h with ⟨act,h⟩ | ⟨act,h⟩
  · rcases h.step hop hs with hi | ⟨b,faults,now,-,hp⟩
    · exact .inl hi
    · exact .inr ⟨act,hp⟩
  · have hn := h.step hop hs
    split at hn
    · exact .inl ⟨act,hn.1⟩
    · exact .inr ⟨act,hn⟩

theorem profiling_run {w w' : World F} {act : SigAction} (h : w.Profiling act) {ops : List (Op F)}
    (hops : Along World.step Undisturbed w ops) (hd : ∀ op ∈ ops, op.isDrop = false)
    (hrun : run World.step w ops = some w') : w'.Profiling act := by
  induction ops generalizing w with
  | nil =>
    cases hrun
    exact h
  | cons op ops ih =>
    obtain ⟨w₁,hs,hrest⟩ := run_cons_eq_some hrun
    have h₁ := h.step hops.1 hs
    rw [hd op (by simp)] at h₁
    exact ih h₁ (hops.2 w₁ hs) (fun o ho => hd o (by simp [ho])) hrest

theorem InStep.drop {w w' : World F} (h : InStep w) {i : Nat}
    (hs : w.step (.drop i ⟨false,false⟩) = some w') : w'.os.Disarmed ∧ w'.Empty := by
  rcases h with ⟨act,h⟩ | ⟨act,h⟩
  · simp [World.step,h.guards] at hs
  · have hop : Undisturbed w (.drop i ⟨false,false⟩) := rfl
    obtain ⟨hi,he⟩ := h.step hop hs
    exact ⟨hi.itimer,he⟩

theorem drop_restores {w₁ w w' : World F} {act : SigAction} (h₁ : w₁.Idle act)
    {b : ProfilerGuardBuilder} {now : Clock} {post : List (Op F)}
    (hops : Along World.step Undisturbed w₁ (.build b ⟨false,false⟩ now :: post))
    (hpost : ∀ op ∈ post, op.isDrop = false)
    (hrun : run World.step w₁ (.build b ⟨false,false⟩ now :: post) = some w) {i : Nat}
    (hs : w.step (.drop i ⟨false,false⟩) = some w') : w'.os.sigprof = act := by
  obtain ⟨w₂,hbuild,hrest⟩ := run_cons_eq_some hrun
  obtain ⟨hf₁,hf₂,-⟩ := hops.1
  obtain ⟨guard,w₃,hb,hp⟩ := h₁.build hf₁ hf₂ now
  have hrest' := hops.2 w₂ hbuild
  simp only [World.step,hb] at hbuild
  cases hbuild
  have h := profiling_run hp hrest' hpost hrest
  have hop : Undisturbed w (.drop i ⟨false,false⟩) := rfl
  obtain ⟨hi,-⟩ := h.step hop hs
  exact hi.sigprof

/-- At most one guard is live, and the flag, the handler and the timer say which it is.
A drop leaves all as it was before the build of its guard. -/
theorem life_cycle {w₀ w : World F} (h₀ : w₀.Fresh) {ops : List (Op F)}
    (hops : Along World.step Undisturbed w₀ ops) (hrun : run World.step w₀ ops = some w) :
    w.guards.length ≤ 1 ∧
    (w.guards ≠ [] ↔ w.running = true) ∧
    (w.guards ≠ [] ↔ w.os.sigprof.handler = .perf_signal_handler) ∧
    (w.guards ≠ [] ↔ w.os.Armed) ∧
    (∀ (b : ProfilerGuardBuilder) now, w.guards ≠ [] →
      (b.build w ⟨false,false⟩ now).1 = .ok (.error .Running)) ∧
    (∀ (b : ProfilerGuardBuilder) now, w.guards = [] → 1 ≤ b.frequency.toInt →
      b.frequency.toInt ≤ 1000000 → ∃ guard, (b.build w ⟨false,false⟩ now).1 = .ok (.ok guard)) ∧
    (∀ i w', w.step (.drop i ⟨false,false⟩) = some w' → w'.os.Disarmed ∧ w'.Empty) ∧
    ∀ pre b now post w₁ i w', ops = pre ++ .build b ⟨false,false⟩ now :: post →
      run World.step w₀ pre = some w₁ → w₁.guards = [] → (∀ op ∈ post, op.isDrop = false) →
      w.step (.drop i ⟨false,false⟩) = some w' → w'.os.sigprof = w₁.os.sigprof := by
  have hinv : InStep w := invariant_along inStep_step (.inl ⟨_,fresh_idle h₀⟩) hops hrun
  obtain ⟨hlen,hrunning,hhandler,harmed⟩ := hinv.flags
  refine ⟨hlen,hrunning,hhandler,harmed,fun b now hg => hinv.refuses hg b now,?_,
    fun i w' hs => hinv.drop hs,?_⟩
  · intro b now hg h₁ h₂
    obtain ⟨act,h⟩ := hinv.idle hg
    obtain ⟨guard,w',hb,-⟩ := h.build h₁ h₂ now
    exact ⟨guard,by rw [hb]⟩
  · rintro pre b now post w₁ i w' rfl hpre hg hpost hs
    obtain ⟨hapre,harest⟩ := hops.append hpre
    have h₁ : InStep w₁ := invariant_along inStep_step (.inl ⟨_,fresh_idle h₀⟩) hapre hpre
    obtain ⟨act,hi⟩ := h₁.idle hg
    rw [run_append_some hpre] at hrun
    rw [drop_restores hi harest hpost hrun hs,hi.sigprof]

end Runs

end Cycle

def plainWorld [Layout (Entry (UnresolvedFrames PlainFrame))] [Target] : World PlainFrame :=
  ⟨none,plainOs,[]⟩

theorem plainWorld_fresh [Layout (Entry (UnresolvedFrames PlainFrame))] [Target] :
    plainWorld.Fresh := ⟨rfl,nofun,rfl,rfl⟩

def plainClock : Clock := ⟨⟨0,0⟩,0⟩

theorem plainWorld_trigger [Layout (Entry (UnresolvedFrames PlainFrame))] [Target] :
    ∃ p, trigger_lazy (plainWorld : World PlainFrame).PROFILER
      (⟨false,false⟩ : BuildFaults).create = .ok p ∧ p.running = false := by
  obtain ⟨p,hp⟩ := profiler_new (F := PlainFrame)
  refine ⟨p,hp,?_⟩
  cases hp
  rfl

theorem plainWorld_build [Layout (Entry (UnresolvedFrames PlainFrame))] [Target]
    [DefaultHasher] :
    ∃ w : World PlainFrame, run World.step plainWorld
        [.build ProfilerGuardBuilder.default ⟨false,false⟩ plainClock] = some w ∧
      ∃ timer p, w.guards = [⟨some timer⟩] ∧ w.PROFILER = some (.ok p) ∧ p.running = true ∧
        p.blocklist_segments = [] ∧ p.old_sigaction = some plainOs.sigprof := by
  obtain ⟨p,ht,hrun⟩ := plainWorld_trigger
  obtain ⟨timer,hb⟩ := build_guard (b := ProfilerGuardBuilder.default) ht hrun rfl (by decide)
    plainClock
  have hs : (plainWorld : World PlainFrame).step
      (.build ProfilerGuardBuilder.default ⟨false,false⟩ plainClock) = some ⟨
        some (.ok (ProfilerGuardBuilder.default.started p plainOs)),
        Os.setitimer { plainOs with
          sigprof := (ProfilerGuardBuilder.default.configure p).handlerAction }
          ⟨interval 99,interval 99⟩,[⟨some timer⟩]⟩ := by
    simp only [World.step,hb]
    rfl
  exact ⟨_,run_cons_some hs [],timer,_,rfl,rfl,rfl,rfl,rfl⟩

theorem life_cycle_default :
    letI := plainTarget
    letI := plainHasher
    letI := plainLayout
    ∃ w : World PlainFrame, run World.step plainWorld
        [.build ProfilerGuardBuilder.default ⟨false,false⟩ plainClock] = some w ∧
      w.guards ≠ [] ∧ w.running = true ∧ w.os.Armed := by
  let _ := plainTarget
  let _ := plainHasher
  let _ := plainLayout
  obtain ⟨w,hrun,timer,p,hg,-⟩ := plainWorld_build
  have hops : Along World.step Undisturbed plainWorld
      [.build ProfilerGuardBuilder.default ⟨false,false⟩ plainClock] :=
    ⟨⟨by decide,by decide,rfl⟩,fun _ _ => trivial⟩
  obtain ⟨-,hrunning,-,harmed,-⟩ := life_cycle plainWorld_fresh hops hrun
  have hne : w.guards ≠ [] := by simp [hg]
  exact ⟨w,hrun,hne,hrunning.mp hne,harmed.mp hne⟩

end Pprof
