import Pprof.Failures
import Pprof.Lib.Projection
import Pprof.Races
set_option autoImplicit false

/-! Reports over a file system that may fail at any call, in every run of the process. -/

namespace Pprof
open Memory Runs TempFile

section Faults
variable {F : Type} [Layout (Entry (UnresolvedFrames F))] [Target] [Frame F] [DefaultHasher]

/-- The samples since the collector was made last, and whether one of the writes since then
has failed. -/
structure Observed (F : Type) [Layout (Entry (UnresolvedFrames F))] [Target] where
  world : World F
  recorded : List (UnresolvedFrames F)
  lost : Bool

def World.observed (w : World F) : Observed F := ⟨w,[],false⟩

def Observed.dropped (c : Observed F) (world : World F) : Observed F :=
  if c.world.running && !world.running then ⟨world,[],false⟩ else { c with world }

def Observed.step (c : Observed F) (op : Op F) : Option (Observed F) :=
  (c.world.step op).map fun world =>
    match op with
    | .signal at_ fault =>
      match c.world.PROFILER with
      | some profiler => ⟨world,c.recorded ++ taken profiler at_,
          c.lost || spillFails profiler at_ fault⟩
      | none => { c with world }
    | .drop .. => c.dropped world
    | _ => { c with world }

/-- A guard's session, or none: what the collector holds is known. A profiler that goes on
without a guard is never reported again. -/
structure Observed.Sound (c : Observed F) : Prop where
  owned : Owned c.world
  kept : ∀ p, c.world.PROFILER = some (.ok p) → (p.running = true → c.world.guards ≠ []) →
    p.Keeps c.recorded c.lost
  fresh : c.world.PROFILER = none → c.recorded = [] ∧ c.lost = false

theorem sound_observed {w : World F} (h : w.Fresh) : w.observed.Sound := by
  refine ⟨.inl h.guards,fun p hp => ?_,fun _ => ⟨rfl,rfl⟩⟩
  rw [World.observed,h.PROFILER] at hp
  cases hp

theorem Observed.Sound.trigger {c : Observed F} (h : c.Sound) {fails : Bool} {p : Profiler F}
    (ht : trigger_lazy c.world.PROFILER fails = .ok p)
    (hp : p.running = true → c.world.guards ≠ []) : p.Keeps c.recorded c.lost := by
  cases hq : c.world.PROFILER with
  | some profiler =>
    rw [hq] at ht
    cases ht
    exact h.kept p hq hp
  | none =>
    obtain ⟨hr,hl⟩ := h.fresh hq
    rw [hq] at ht
    rw [hr,hl]
    cases fails with
    | true => cases ht
    | false => exact (holding_new ht).keeps

theorem sound_build {c c' : Observed F} (h : c.Sound) {b : ProfilerGuardBuilder}
    {faults : BuildFaults} {now : Clock} (hs : c.step (.build b faults now) = some c') :
    c'.Sound := by
  obtain ⟨w,hw,rfl⟩ := Option.map_eq_some_iff.mp hs
  have howned := owned_step c.world _ w h.owned hw
  rcases build_cases b c.world faults now with ⟨err,-,hb⟩ | ⟨p,ht,⟨hp,hb⟩ | ⟨hp,-,hb⟩ |
    ⟨hp,-,-,hb⟩ | ⟨hp,-,-,timer,hb⟩⟩ <;> simp only [World.step,hb] at hw <;> cases hw
  · exact ⟨howned,by simp,by simp⟩
  · refine ⟨howned,fun q hq hg => ?_,by simp⟩
    cases hq
    exact (h.trigger ht hg).of_data rfl rfl
  · refine ⟨howned,fun q hq hg => ?_,by simp⟩
    cases hq
    exact (h.trigger ht hg).of_data rfl rfl
  · refine ⟨howned,fun q hq hg => ?_,by simp⟩
    cases hq
    have hidle : p.running = true → c.world.guards ≠ [] := by simp [hp]
    exact (h.trigger ht hidle).of_data rfl rfl
  · refine ⟨howned,fun q hq _ => ?_,by simp⟩
    cases hq
    have hidle : p.running = true → c.world.guards ≠ [] := by simp [hp]
    exact (h.trigger ht hidle).of_data rfl rfl

theorem init_cases (p : Profiler F) (fails : Bool) :
    (p.init fails).2.running = p.running ∨
      ((p.init fails).2.running = false ∧ Holding (p.init fails).2 []) := by
  cases fails with
  | true => exact .inl rfl
  | false => exact .inr ⟨rfl,holding_init⟩

omit [Frame F] [DefaultHasher] in
theorem unregister_running (p : Profiler F) (os : Os) (fails : Bool) :
    (p.unregister_signal_handler os fails).2.1.running = p.running := by
  obtain ⟨data,counter,old,running,on_stack,segments⟩ := p
  cases old with
  | none => rfl
  | some act => cases fails <;> rfl

theorem stop_cases (p : Profiler F) (os : Os) (faults : StopFaults) :
    (p.running = false ∧ (p.stop os faults).2.1 = p) ∨
    (p.running = true ∧ (p.stop os faults).2.1.running = true) ∨
    (p.running = true ∧ (p.stop os faults).2.1.running = false ∧
      Holding (p.stop os faults).2.1 []) := by
  cases hr : p.running with
  | false => exact .inl ⟨rfl,by rw [stop_not_running hr]⟩
  | true =>
    right
    have hun := unregister_running p os faults.restore
    simp only [Profiler.stop,hr,if_true]
    rcases hq : p.unregister_signal_handler os faults.restore with ⟨r,q,os'⟩
    rw [hq] at hun
    cases r with
    | error err => exact .inl ⟨trivial,hun.trans hr⟩
    | ok u =>
      rcases init_cases q faults.create with hkeep | ⟨hstop,hnew⟩
      · exact .inl ⟨trivial,hkeep.trans (hun.trans hr)⟩
      · exact .inr ⟨trivial,hstop,hnew⟩

omit [Frame F] [DefaultHasher] in
theorem drop_profiler (g : ProfilerGuard) (w : World F) (faults : StopFaults) :
    (∃ p os, w.PROFILER = some (.ok p) ∧
      (g.drop w faults).PROFILER = some (.ok (p.stop os faults).2.1)) ∨
    ((∀ p, w.PROFILER ≠ some (.ok p)) ∧ (g.drop w faults).PROFILER = w.PROFILER) := by
  obtain ⟨profiler,os,guards⟩ := w
  obtain ⟨timer⟩ := g
  rcases profiler with - | err | p
  · exact .inr ⟨nofun,rfl⟩
  · exact .inr ⟨nofun,rfl⟩
  · cases timer with
    | none => exact .inl ⟨p,os,rfl,rfl⟩
    | some timer => exact .inl ⟨p,Timer.drop os,rfl,rfl⟩

omit [Frame F] [DefaultHasher] in
theorem dropped_stopped {c : Observed F} {w : World F} (h : c.world.running = true)
    (hw : w.running = false) : c.dropped w = ⟨w,[],false⟩ := by simp [Observed.dropped,h,hw]

omit [Frame F] [DefaultHasher] in
theorem dropped_kept {c : Observed F} {w : World F}
    (h : c.world.running = false ∨ w.running = true) :
    c.dropped w = { c with world := w } := by
  rcases h with h | h <;> simp [Observed.dropped,h]

theorem sound_drop {c c' : Observed F} (h : c.Sound) {i : Nat} {faults : StopFaults}
    (hs : c.step (.drop i faults) = some c') : c'.Sound := by
  obtain ⟨w,hw,rfl⟩ := Option.map_eq_some_iff.mp hs
  have howned := owned_step c.world _ w h.owned hw
  obtain ⟨guard,hg,hdrop⟩ := step_drop hw
  have hempty : w.guards = [] := by
    rw [hdrop,drop_guards]
    rcases h.owned with hnil | ⟨timer,p,act,hone,-⟩
    · simp [hnil] at hg
    · exact eraseIdx_singleton hone hg
  have hprofiler := drop_profiler guard { c.world with guards := c.world.guards.eraseIdx i } faults
  rw [← hdrop] at hprofiler
  change (c.dropped w).Sound
  rcases hprofiler with ⟨p,os,hp,hd⟩ | ⟨hne,hd⟩
  · have hrun : c.world.running = p.running := by
      change c.world.PROFILER = _ at hp
      simp [World.running,hp]
    have hrun' : w.running = (p.stop os faults).2.1.running := by simp [World.running,hd]
    rcases stop_cases p os faults with ⟨hr,hsame⟩ | ⟨hr,hr'⟩ | ⟨hr,hr',hnew⟩
    · rw [dropped_kept (.inl (hrun.trans hr))]
      refine ⟨howned,fun q hq _ => ?_,by simp [hd]⟩
      change w.PROFILER = _ at hq
      rw [hd,hsame] at hq
      cases hq
      exact h.kept p hp (by simp [hr])
    · rw [dropped_kept (.inr (hrun'.trans hr'))]
      refine ⟨howned,fun q hq hguards => ?_,by simp [hd]⟩
      change w.PROFILER = _ at hq
      rw [hd] at hq
      cases hq
      exact absurd hempty (hguards hr')
    · rw [dropped_stopped (hrun.trans hr) (hrun'.trans hr')]
      refine ⟨howned,fun q hq _ => ?_,by simp [hd]⟩
      change w.PROFILER = _ at hq
      rw [hd] at hq
      cases hq
      exact hnew.keeps
  · have hno : c.world.running = false := by
      cases hp : c.world.PROFILER with
      | none => simp [World.running,hp]
      | some profiler =>
        cases profiler with
        | error err => simp [World.running,hp]
        | ok p => exact absurd hp (hne p)
    rw [dropped_kept (.inl hno)]
    refine ⟨howned,fun q hq => ?_,fun hnone => h.fresh (hd.symm.trans hnone)⟩
    exact absurd (hd.symm.trans hq) (hne q)

theorem sound_step_observed (c : Observed F) (op : Op F) (c' : Observed F) (h : c.Sound)
    (hs : c.step op = some c') : c'.Sound := by
  cases op with
  | build b faults now => exact sound_build h hs
  | drop i faults => exact sound_drop h hs
  | report i =>
    obtain ⟨w,hw,rfl⟩ := Option.map_eq_some_iff.mp hs
    obtain ⟨-,rfl⟩ := step_report hw
    exact h
  | signal at_ fault =>
    obtain ⟨w,hw,rfl⟩ := Option.map_eq_some_iff.mp hs
    have howned := owned_step c.world _ w h.owned hw
    obtain ⟨profiler,profiler',hp,-,hh,rfl⟩ := step_signal hw
    simp only [hp]
    refine ⟨howned,fun q hq hg => ?_,by simp⟩
    cases hq
    cases profiler with
    | error err => cases hh
    | ok p =>
      by_cases hguards : p.running = true → c.world.guards ≠ []
      · obtain ⟨p',hp',-,hk⟩ := handler_spill (h.kept p hp hguards) hh
        cases hp'
        exact hk
      · obtain ⟨p',hp',hrun,-⟩ := handler_keeps hh
        cases hp'
        rw [hrun] at hg
        exact absurd hg hguards
  | sigaction act =>
    obtain ⟨w,hw,rfl⟩ := Option.map_eq_some_iff.mp hs
    cases hw
    exact ⟨owned_step c.world (.sigaction act) _ h.owned rfl,h.kept,h.fresh⟩

theorem sound_observed_run {w₀ : World F} (h₀ : w₀.Fresh) {ops : List (Op F)} {c : Observed F}
    (hr : run Observed.step w₀.observed ops = some c) : c.Sound :=
  Reachable.invariant sound_step_observed (sound_observed h₀) ⟨ops,hr⟩

omit [Frame F] [DefaultHasher] in
theorem dropped_world (c : Observed F) (w : World F) : (c.dropped w).world = w := by
  unfold Observed.dropped
  split <;> rfl

theorem observed_world (c : Observed F) (op : Op F) :
    (c.step op).map Observed.world = c.world.step op := by
  unfold Observed.step
  rw [Option.map_map]
  cases hs : c.world.step op with
  | none => rfl
  | some w =>
    cases op with
    | signal at_ fault => cases hp : c.world.PROFILER <;> simp
    | drop i faults => simp [dropped_world]
    | build b faults now => rfl
    | report i => rfl
    | sigaction act => rfl

variable {σ : Type} [Resolver]

/-- Whatever calls fail and whoever else sets the action: the reports of a live guard are
refused if a write has failed since the collector was made, or if the read fails, and else
they count each sample that the handler has taken since then. -/
theorem reports_exact_or_refused {w₀ : World F} (h₀ : w₀.Fresh) {ops : List (Op F)}
    {c : Observed F} (hr : run Observed.step w₀.observed ops = some c) {guard : ProfilerGuard}
    (hg : guard ∈ c.world.guards) :
    run World.step w₀ ops = some c.world ∧
    ∃ profiler, c.world.PROFILER = some profiler ∧
      ∀ (now : Clock) (processor : Option (Frames → σ → Frames × σ)) (s : σ)
        (fault : Option ReadFault),
        let b : ReportBuilder F σ := { guard.report (σ := σ) profiler now with
          frames_post_processor := processor }
        (c.lost = true ∨ fault ≠ none →
          (∃ err, b.build_unresolved fault = .ok (.error (.IoError err))) ∧
          ∃ err, b.build s fault = .ok (.error (.IoError err))) ∧
        (c.lost = false → fault = none →
          (∃ r, b.build_unresolved fault = .ok (.ok r) ∧
            ∀ k, r.data.get k = if c.recorded.countP (· == k) = 0 then none
              else some (c.recorded.countP (· == k) : ℤ)) ∧
          ∃ r, b.build s fault = .ok (.ok r) ∧ (∀ e ∈ r.data.entries, 0 < e.2) ∧
            (r.data.entries.map Prod.snd).sum = c.recorded.length) := by
  have hs := sound_observed_run h₀ hr
  have hworld := run_added observed_world w₀.observed ops
  rw [hr] at hworld
  refine ⟨hworld.symm,?_⟩
  have hne : c.world.guards ≠ [] := List.ne_nil_of_mem hg
  obtain ⟨p,hp⟩ : ∃ p, c.world.PROFILER = some (.ok p) := by
    rcases hs.owned with hnil | ⟨timer,p,act,-,hp,-⟩
    · exact absurd hnil hne
    · exact ⟨p,hp⟩
  have hk := hs.kept p hp fun _ => hne
  refine ⟨.ok p,hp,?_⟩
  intro now processor s fault b
  refine ⟨fun hfail => ?_,?_⟩
  · obtain ⟨hunresolved,hbuild⟩ := hk.refused (b := b) rfl hfail
    exact ⟨hunresolved,hbuild s⟩
  · rintro hl rfl
    have hh := hk.holding hl
    exact ⟨hh.unresolved rfl,hh.build rfl s⟩

end Faults

theorem plainWorld_sampled [Layout (Entry (UnresolvedFrames PlainFrame))] [Target]
    [DefaultHasher] :
    ∃ (c : Observed PlainFrame) (timer : Timer), run Observed.step
      (plainWorld : World PlainFrame).observed
        [.build ProfilerGuardBuilder.default ⟨false,false⟩ plainClock,
          .signal plainInterrupted none] = some c ∧
      c.world.guards = [⟨some timer⟩] ∧ c.lost = false ∧ c.recorded.length = 1 := by
  obtain ⟨w,hrun,timer,p,hg,hp,-⟩ := plainWorld_build
  obtain ⟨c,hc,rfl⟩ : ∃ c : Observed PlainFrame,
      run Observed.step (plainWorld : World PlainFrame).observed
        [.build ProfilerGuardBuilder.default ⟨false,false⟩ plainClock] = some c ∧ c.world = w := by
    have hadded := run_added observed_world (plainWorld : World PlainFrame).observed
      [.build ProfilerGuardBuilder.default ⟨false,false⟩ plainClock]
    exact Option.map_eq_some_iff.mp (hadded.trans hrun)
  have hempty : c.recorded = [] ∧ c.lost = false ∧
      c.world.os.sigprof.handler = .perf_signal_handler := by
    cases hc
    exact ⟨rfl,rfl,rfl⟩
  have hk := (sound_observed_run plainWorld_fresh hc).kept p hp fun _ => by simp [hg]
  rw [hempty.1,hempty.2.1] at hk
  obtain ⟨profiler,hhand⟩ := (hk.holding rfl).handler_total (by simp) plainInterrupted (by decide)
  obtain ⟨p',rfl,-⟩ := handler_keeps hhand
  have hsig : c.world.step (.signal plainInterrupted none) =
      some { c.world with PROFILER := some (.ok p') } := by
    simp only [World.step,hp,hempty.2.2,if_true,hhand]
  have hs : c.step (.signal plainInterrupted none) =
      some ⟨{ c.world with PROFILER := some (.ok p') },c.recorded ++ taken (.ok p) plainInterrupted,
        c.lost || spillFails (.ok p) plainInterrupted none⟩ := by
    simp only [Observed.step,hsig,hp,Option.map_some]
  rw [hempty.1,hempty.2.1,spillFails_none] at hs
  exact ⟨_,timer,(run_snoc hc (.signal plainInterrupted none)).trans hs,hg,rfl,rfl⟩

theorem reports_exact_or_refused_plain :
    letI := plainTarget
    letI := plainHasher
    letI := plainLayout
    letI := plainResolver
    ∃ (c : Observed PlainFrame) (guard : ProfilerGuard)
      (profiler : Except Error (Profiler PlainFrame)) (r : Report),
      run Observed.step (plainWorld : World PlainFrame).observed
        [.build ProfilerGuardBuilder.default ⟨false,false⟩ plainClock,
          .signal plainInterrupted none] = some c ∧
      guard ∈ c.world.guards ∧ c.world.PROFILER = some profiler ∧ c.lost = false ∧
      (guard.report profiler plainClock).build () none = .ok (.ok r) ∧
      (r.data.entries.map Prod.snd).sum = 1 := by
  let _ := plainTarget
  let _ := plainHasher
  let _ := plainLayout
  let _ := plainResolver
  obtain ⟨c,timer,hrun,hg,hlost,hlen⟩ := plainWorld_sampled
  have hguard : (⟨some timer⟩ : ProfilerGuard) ∈ c.world.guards := by simp [hg]
  obtain ⟨-,profiler,hprof,hreport⟩ := reports_exact_or_refused (σ := Unit) plainWorld_fresh hrun
    hguard
  obtain ⟨-,hexact⟩ := hreport plainClock none () none
  obtain ⟨-,r,hr,-,hsum⟩ := hexact hlost rfl
  rw [hlen] at hsum
  exact ⟨c,_,profiler,r,hrun,hguard,hprof,hlost,hr,hsum⟩

end Pprof
