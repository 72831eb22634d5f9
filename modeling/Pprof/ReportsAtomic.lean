import Pprof.Races
import Pprof.Reporting
set_option autoImplicit false

/-! Each report is the one that its call would make alone at the moment it gets the lock: what
comes between its steps cannot reach the collector. -/

namespace Pprof
open Assoc Iteration Memory Runs TempFile

section Kept
variable {F : Type} [Layout (Entry (UnresolvedFrames F))] [Target] [Frame F] [DefaultHasher]

/-- While a session or a call is on, or none, the collector holds what the handler took, from
whichever session, or a write has failed. A profiler that goes on without a guard is left
out. -/
structure Threads.Exact (c : Threads F) : Prop where
  keeps : ∀ p, c.world.PROFILER = some (.ok p) →
    (p.running = true → c.world.guards ≠ [] ∨ c.lock ≠ .free) →
      p.Keeps (c.recorded.map Prod.snd) c.lost
  fresh : c.world.PROFILER = none → c.recorded = [] ∧ c.lost = false

theorem exact_threads {w : World F} (h : w.Fresh) : w.threads.Exact := by
  refine ⟨fun p hp => ?_,fun _ => ⟨rfl,rfl⟩⟩
  rw [World.threads,h.PROFILER] at hp
  cases hp

theorem Threads.Exact.trigger {c : Threads F} (h : c.Exact) {fails : Bool} {p : Profiler F}
    (ht : trigger_lazy c.world.PROFILER fails = .ok p)
    (hp : p.running = true → c.world.guards ≠ [] ∨ c.lock ≠ .free) :
    p.Keeps (c.recorded.map Prod.snd) c.lost := by
  cases hq : c.world.PROFILER with
  | some profiler =>
    rw [hq] at ht
    cases ht
    exact h.keeps p hq hp
  | none =>
    obtain ⟨hempty,hlost⟩ := h.fresh hq
    rw [hempty,hlost]
    rw [hq] at ht
    cases fails with
    | true => cases ht
    | false => exact (holding_new ht).keeps

variable {act : SigAction}

theorem exact_step (c : Threads F) (e : Event F) (c' : Threads F) (hph : c.Phase act)
    (h : c.Exact) (hs : c.step e = some c') : c'.Exact := by
  cases e with
  | build b faults now =>
    obtain ⟨hl,⟨err,-,rfl⟩ | ⟨p,ht,rfl | ⟨hp,rfl⟩⟩⟩ := step_build hs
    · exact ⟨nofun,nofun⟩
    · refine ⟨fun q hq hlive => ?_,nofun⟩
      cases hq
      exact (h.trigger ht hlive).of_data rfl rfl
    · refine ⟨fun q hq _ => ?_,nofun⟩
      cases hq
      exact (h.trigger ht (by simp [hp])).of_data rfl rfl
  | arm =>
    obtain ⟨frequency,now,hl,⟨timer,os,-,rfl⟩ | rfl⟩ := step_arm hs
    · refine ⟨fun p hp _ => h.keeps p hp fun _ => .inr ?_,h.fresh⟩
      simp [hl]
    · refine ⟨fun p hp _ => h.keeps p hp fun _ => .inr ?_,h.fresh⟩
      simp [hl]
  | disarm i =>
    obtain ⟨-,rfl⟩ := step_disarm hs
    refine ⟨fun p hp hlive => h.keeps p hp fun hr => ?_,h.fresh⟩
    simpa using hlive hr
  | restore i fails =>
    obtain ⟨p,hp,hr,-,rfl,hg,-⟩ := hph.restorable hs
    have hkept := h.keeps p hp fun _ => .inl (by simp [hg])
    obtain ⟨hl,-,⟨q,hq,-,-,rfl⟩ | ⟨q,hq,-,-,rfl⟩ | ⟨hn,-⟩⟩ := step_restore hs
    · rw [hp] at hq
      cases hq
      refine ⟨fun q hq _ => ?_,nofun⟩
      cases hq
      exact hkept.of_data rfl rfl
    · rw [hp] at hq
      cases hq
      refine ⟨fun q hq hlive => ?_,nofun⟩
      cases hq
      rcases hlive hr with hne | hlock
      · simp [hg] at hne
      · exact absurd hl hlock
    · have hf := hn p hp
      rw [hr] at hf
      cases hf
  | reset fails =>
    obtain ⟨i,p,hl,hp,rfl⟩ := step_reset hs
    cases fails with
    | false =>
      refine ⟨fun q hq _ => ?_,nofun⟩
      cases hq
      exact holding_init.keeps
    | true =>
      cases hph with
      | idle hl' | building _ _ hl' | profiling hl' | disarmed hl' =>
        rw [hl] at hl'
        cases hl'
      | dropping hl' hg q hq hr =>
        rw [hl] at hl'
        cases hl'
        rw [hp] at hq
        cases hq
        refine ⟨fun q hq hlive => ?_,nofun⟩
        cases hq
        rcases hlive hr with hne | hlock
        · simp [hg] at hne
        · exact absurd rfl hlock
  | sample i fault =>
    obtain ⟨r,profiler,profiler',-,-,hp,hh,rfl⟩ := step_sample hs
    refine ⟨fun q hq hlive => ?_,nofun⟩
    cases hq
    cases profiler with
    | error err => cases hh
    | ok p =>
      obtain ⟨p',hp',hrun,-⟩ := handler_keeps hh
      cases hp'
      rw [hrun] at hlive
      obtain ⟨p',hp',-,hk⟩ := handler_spill (h.keeps p hp hlive) hh
      cases hp'
      simpa [Function.comp_def] using hk
  | expire | deliver at_ | raise at_ | give_up i =>
    obtain ⟨pending,handlers,rfl⟩ := step_aside rfl hs
    exact ⟨h.keeps,h.fresh⟩

theorem exact_run {w₀ : World F} (h₀ : w₀.Fresh) {es : List (Event F)} {c : Threads F}
    (hr : run Threads.step w₀.threads es = some c) : c.Phase w₀.os.sigprof ∧ c.Exact := by
  refine Reachable.invariant (I := fun c => c.Phase w₀.os.sigprof ∧ c.Exact) ?_
    ⟨h₀.phase,exact_threads h₀⟩ ⟨es,hr⟩
  rintro c e c' ⟨hph,hc⟩ hs
  exact ⟨phase_step c e c' hph hs,exact_step c e c' hph hc hs⟩

theorem keeps_of_guard {w₀ : World F} (h₀ : w₀.Fresh) {es : List (Event F)} {c : Threads F}
    (hr : run Threads.step w₀.threads es = some c) (hg : c.world.guards ≠ []) :
    ∃ p, c.world.PROFILER = some (.ok p) ∧ p.Keeps (c.recorded.map Prod.snd) c.lost := by
  obtain ⟨hph,hc⟩ := exact_run h₀ hr
  obtain ⟨p,hp,-⟩ := hph.running_of_guard hg
  exact ⟨p,hp,hc.keeps p hp fun _ => .inl hg⟩

end Kept

section Atomic
variable {F σ : Type} [Layout (Entry (UnresolvedFrames F))] [Target] [Frame F] [DefaultHasher]
  [Resolver]

def Entered (c₀ : Reporting F σ) (es : List (ReportEvent F σ)) (call : ReportCall σ)
    (profiler : Except Error (Profiler F)) : Prop :=
  ∃ pre post i c, es = pre ++ .enter i call :: post ∧ run Reporting.step c₀ pre = some c ∧
    c.threads.world.PROFILER = some profiler

theorem Entered.snoc {c₀ : Reporting F σ} {es : List (ReportEvent F σ)} {call : ReportCall σ}
    {profiler : Except Error (Profiler F)} (h : Entered c₀ es call profiler)
    (e : ReportEvent F σ) : Entered c₀ (es ++ [e]) call profiler := by
  obtain ⟨pre,post,i,c,rfl,hr,hp⟩ := h
  exact ⟨pre,post ++ [e],i,c,by simp,hr,hp⟩

/-- Writers are alone, the lock is not held by another call while reports are under way, and
these are on their way to what they would return alone. -/
structure Reporting.Sound (c₀ : Reporting F σ) (es : List (ReportEvent F σ))
    (c : Reporting F σ) : Prop where
  locked : c.underway ≠ [] → c.threads.lock = .free
  alone : c.writing.isSome = true → c.reading = []
  underway : ∀ x ∈ c.underway, ∃ p, c.threads.world.PROFILER = some (.ok p) ∧
    Entered c₀ es x.1 (.ok p) ∧ x.2.outcome p = x.1.atomic (.ok p)
  finished : ∀ x ∈ c.finished, ∃ profiler, Entered c₀ es x.1 profiler ∧ x.2 = x.1.atomic profiler

omit [Resolver] in
theorem waits_keeps {c c' : Threads F} {e : Event F} (hl : c.lock = .free)
    (he : e.waits = false) (hs : c.step e = some c') :
    c'.lock = .free ∧ c'.world.PROFILER = c.world.PROFILER := by
  cases e with
  | build | disarm | restore | sample => cases he
  | arm =>
    obtain ⟨frequency,now,hl',-⟩ := step_arm hs
    rw [hl] at hl'
    cases hl'
  | reset fails =>
    obtain ⟨i,p,hl',-⟩ := step_reset hs
    rw [hl] at hl'
    cases hl'
  | expire | deliver at_ | raise at_ | give_up i =>
    obtain ⟨pending,handlers,rfl⟩ := step_aside rfl hs
    exact ⟨hl,rfl⟩

variable {c₀ c c' : Reporting F σ} {es : List (ReportEvent F σ)}

theorem Reporting.Sound.other (h : Reporting.Sound c₀ es c) {e : Event F}
    (hs : c.step (.other e) = some c') : Reporting.Sound c₀ (es ++ [.other e]) c' := by
  obtain ⟨hw,threads,ht,rfl⟩ := step_other hs
  have hfinished : ∀ x ∈ c.finished, ∃ profiler, Entered c₀ (es ++ [.other e]) x.1 profiler ∧
      x.2 = x.1.atomic profiler := by
    intro x hx
    obtain ⟨profiler,he,hx⟩ := h.finished x hx
    exact ⟨profiler,he.snoc _,hx⟩
  cases hu : c.underway with
  | nil =>
    have hnone : ({ c with threads } : Reporting F σ).underway = [] := hu
    refine ⟨fun hne => absurd hnone hne,h.alone,fun x hx => ?_,hfinished⟩
    rw [hnone] at hx
    cases hx
  | cons x xs =>
    have hne : c.underway ≠ [] := by simp [hu]
    have he : e.waits = false := by
      by_contra hc
      exact hne (hw (by simpa using hc))
    obtain ⟨hl,hp⟩ := waits_keeps (h.locked hne) he ht
    refine ⟨fun _ => hl,h.alone,fun x hx => ?_,hfinished⟩
    obtain ⟨p,hq,hent,hout⟩ := h.underway x hx
    exact ⟨p,hp.trans hq,hent.snoc _,hout⟩

theorem sound_enter (h : Reporting.Sound c₀ es c) (hr : run Reporting.step c₀ es = some c)
    {i : Nat} {call : ReportCall σ} (hs : c.step (.enter i call) = some c') :
    Reporting.Sound c₀ (es ++ [.enter i call]) c' := by
  obtain ⟨timer,profiler,hl,-,hp,hwriting,hreading,hcases⟩ := step_enter hs
  have hentered : Entered c₀ (es ++ [.enter i call]) call profiler :=
    ⟨es,[],i,c,by simp,hr,hp⟩
  have hfinished : ∀ x ∈ c.finished, ∃ profiler,
      Entered c₀ (es ++ [.enter i call]) x.1 profiler ∧ x.2 = x.1.atomic profiler := by
    intro x hx
    obtain ⟨profiler,he,hx⟩ := h.finished x hx
    exact ⟨profiler,he.snoc _,hx⟩
  have hunderway : ∀ x ∈ c.underway, ∃ p, c.threads.world.PROFILER = some (.ok p) ∧
      Entered c₀ (es ++ [.enter i call]) x.1 (.ok p) ∧ x.2.outcome p = x.1.atomic (.ok p) := by
    intro x hx
    obtain ⟨p,hq,he,hx⟩ := h.underway x hx
    exact ⟨p,hq,he.snoc _,hx⟩
  have hnew : ∀ run, call.enter profiler = .inl run → ∃ p, profiler = .ok p ∧
      run.outcome p = call.atomic profiler := by
    intro run hrun
    rcases enter_outcome profiler call with ⟨p,run',hprof,hrun',hout⟩ | hout
    · rw [hrun] at hrun'
      cases hrun'
      exact ⟨p,hprof,hout⟩
    · rw [hrun] at hout
      cases hout
  have hreads : c.underway = c.reading := by simp [Reporting.underway,hwriting]
  rcases hcases with ⟨run,hrun,⟨he,rfl⟩ | ⟨-,rfl⟩⟩ | ⟨outcome,hout,rfl⟩
  · obtain ⟨p,rfl,hout⟩ := hnew run hrun
    refine ⟨fun _ => hl,fun _ => hreading he,fun x hx => ?_,hfinished⟩
    simp only [Reporting.underway,hreading he,List.nil_append,Option.toList_some,
      List.mem_singleton] at hx
    subst hx
    exact ⟨p,hp,hentered,hout⟩
  · obtain ⟨p,rfl,hout⟩ := hnew run hrun
    refine ⟨fun _ => hl,by simp [hwriting],fun x hx => ?_,hfinished⟩
    simp only [Reporting.underway,hwriting,Option.toList_none,List.append_nil,List.mem_append,
      List.mem_singleton] at hx
    rcases hx with hx | rfl
    · exact hunderway x (by rwa [hreads])
    · exact ⟨p,hp,hentered,hout⟩
  · refine ⟨fun _ => hl,h.alone,hunderway,fun x hx => ?_⟩
    rcases List.mem_append.mp hx with hx | hx
    · exact hfinished x hx
    · rw [List.mem_singleton] at hx
      subst hx
      refine ⟨profiler,hentered,?_⟩
      rcases enter_outcome profiler call with ⟨p,run',-,hrun',-⟩ | hout'
      · rw [hout] at hrun'
        cases hrun'
      · rw [hout] at hout'
        exact Sum.inr.inj hout'

/-- A report that has the lock goes on, or returns. Whatever list it is kept in, the others
stay where they are. -/
theorem Reporting.Sound.goes_on (h : Reporting.Sound c₀ es c) {e : ReportEvent F σ}
    {call : ReportCall σ} {run : ReportRun F σ} (hx : (call,run) ∈ c.underway) {p : Profiler F}
    (hp : c.threads.world.PROFILER = some (.ok p)) (ht : c'.threads = c.threads)
    (halone : c'.writing.isSome = true → c'.reading = [])
    (hcases : (∃ run', run.next p = .inl run' ∧
        (∀ x ∈ c'.underway, x ∈ c.underway ∨ x = (call,run')) ∧ c'.finished = c.finished) ∨
      ∃ outcome, run.next p = .inr outcome ∧ (∀ x ∈ c'.underway, x ∈ c.underway) ∧
        c'.finished = c.finished ++ [(call,outcome)]) :
    Reporting.Sound c₀ (es ++ [e]) c' := by
  have hl := h.locked (List.ne_nil_of_mem hx)
  obtain ⟨q,hq,hent,hout⟩ := h.underway _ hx
  rw [hp] at hq
  cases hq
  have hunderway : ∀ x ∈ c.underway, ∃ p, c'.threads.world.PROFILER = some (.ok p) ∧
      Entered c₀ (es ++ [e]) x.1 (.ok p) ∧ x.2.outcome p = x.1.atomic (.ok p) := by
    intro x hx
    obtain ⟨p,hq,he,hx⟩ := h.underway x hx
    rw [ht]
    exact ⟨p,hq,he.snoc _,hx⟩
  have hfinished : ∀ x ∈ c.finished, ∃ profiler,
      Entered c₀ (es ++ [e]) x.1 profiler ∧ x.2 = x.1.atomic profiler := by
    intro x hx
    obtain ⟨profiler,he,hx⟩ := h.finished x hx
    exact ⟨profiler,he.snoc _,hx⟩
  rw [← ht] at hp hl
  rcases hcases with ⟨run',hnext,hin,hf⟩ | ⟨outcome,hnext,hin,hf⟩
  · refine ⟨fun _ => hl,halone,fun x hx => ?_,by rwa [hf]⟩
    rcases hin x hx with hx | rfl
    · exact hunderway x hx
    · refine ⟨p,hp,hent.snoc _,?_⟩
      rcases next_outcome p run with ⟨run'',hn,hsame⟩ | hn
      · rw [hnext] at hn
        cases hn
        exact hsame.trans hout
      · rw [hnext] at hn
        cases hn
  · refine ⟨fun _ => hl,halone,fun x hx => hunderway x (hin x hx),fun x hx => ?_⟩
    rw [hf] at hx
    rcases List.mem_append.mp hx with hx | hx
    · exact hfinished x hx
    · rw [List.mem_singleton] at hx
      subst hx
      refine ⟨.ok p,hent.snoc _,?_⟩
      rcases next_outcome p run with ⟨run'',hn,-⟩ | hn
      · rw [hnext] at hn
        cases hn
      · rw [hnext] at hn
        exact (Sum.inr.inj hn).trans hout

theorem sound_read_next (h : Reporting.Sound c₀ es c) {i : Nat}
    (hs : c.step (.read_next i) = some c') : Reporting.Sound c₀ (es ++ [.read_next i]) c' := by
  obtain ⟨call,run,p,hi,hp,hcases⟩ := step_read_next hs
  have hmem : (call,run) ∈ c.reading := List.mem_of_getElem? hi
  have hwriting : c.writing = none := by
    by_contra hc
    have hnil := h.alone (Option.isSome_iff_ne_none.mpr hc)
    rw [hnil] at hmem
    cases hmem
  have hin : (call,run) ∈ c.underway := List.mem_append_left _ hmem
  rcases hcases with ⟨run',hnext,rfl⟩ | ⟨outcome,hnext,rfl⟩
  · refine h.goes_on hin hp rfl (by simp [hwriting]) (.inl ⟨run',hnext,fun x hx => ?_,rfl⟩)
    simp only [Reporting.underway,hwriting,Option.toList_none,List.append_nil] at hx ⊢
    exact List.mem_or_eq_of_mem_set hx
  · refine h.goes_on hin hp rfl (by simp [hwriting]) (.inr ⟨outcome,hnext,fun x hx => ?_,rfl⟩)
    simp only [Reporting.underway,hwriting,Option.toList_none,List.append_nil] at hx ⊢
    exact List.mem_of_mem_eraseIdx hx

theorem sound_write_next (h : Reporting.Sound c₀ es c) (hs : c.step .write_next = some c') :
    Reporting.Sound c₀ (es ++ [.write_next]) c' := by
  obtain ⟨call,run,p,hi,hp,hcases⟩ := step_write_next hs
  have hreading : c.reading = [] := h.alone (by simp [hi])
  have hin : (call,run) ∈ c.underway := by simp [Reporting.underway,hi]
  rcases hcases with ⟨run',hnext,rfl⟩ | ⟨outcome,hnext,rfl⟩
  · refine h.goes_on hin hp rfl (fun _ => hreading) (.inl ⟨run',hnext,fun x hx => ?_,rfl⟩)
    simp only [Reporting.underway,hreading,List.nil_append,Option.toList_some,
      List.mem_singleton] at hx
    exact .inr hx
  · refine h.goes_on hin hp rfl (fun _ => hreading) (.inr ⟨outcome,hnext,fun x hx => ?_,rfl⟩)
    simp [Reporting.underway,hreading] at hx

theorem sound_reporting_run {w₀ : World F} {es : List (ReportEvent F σ)} {c : Reporting F σ}
    (hr : run Reporting.step w₀.threads.reporting es = some c) :
    Reporting.Sound w₀.threads.reporting es c := by
  induction es using List.reverseRecOn generalizing c with
  | nil =>
    cases hr
    exact ⟨by simp [Reporting.underway,Threads.reporting],
      by simp [Threads.reporting],by simp [Reporting.underway,Threads.reporting],
      by simp [Threads.reporting]⟩
  | append_singleton es e ih =>
    obtain ⟨c₁,hr₁,hs⟩ := run_snoc_eq_some hr
    have h₁ := ih hr₁
    cases e with
    | other e => exact h₁.other hs
    | enter i call => exact sound_enter h₁ hr₁ hs
    | read_next i => exact sound_read_next h₁ hs
    | write_next => exact sound_write_next h₁ hs

def Outcome.Counts (samples : List (UnresolvedFrames F)) : Outcome F → Prop
  | .unresolved r => ∃ report, r = .ok (.ok report) ∧
      ∀ k, report.data.get k = if samples.countP (· == k) = 0 then none
        else some (samples.countP (· == k) : ℤ)
  | .report r => ∃ report, r = .ok (.ok report) ∧ (∀ e ∈ report.data.entries, 0 < e.2) ∧
      (report.data.entries.map Prod.snd).sum = samples.length

def Outcome.Refused : Outcome F → Prop
  | .unresolved r => ∃ err, r = .ok (.error (.IoError err))
  | .report r => ∃ err, r = .ok (.error (.IoError err))

/-- Whatever handlers, other reports, builds and drops come between its steps: each report that
returns is the one that its call makes alone at the moment in which it gets the lock. It is
refused if a write has failed since the collector was made or the read fails, and counts just
the samples taken until this moment otherwise. -/
theorem reports_atomic {w₀ : World F} (h₀ : w₀.Fresh) {es : List (ReportEvent F σ)}
    {c : Reporting F σ} (hr : run Reporting.step w₀.threads.reporting es = some c) :
    run Threads.step w₀.threads (es.filterMap ReportEvent.other?) = some c.threads ∧
    ∀ call outcome, (call,outcome) ∈ c.finished →
      ∃ pre post i c₁ profiler, es = pre ++ .enter i call :: post ∧
        run Reporting.step w₀.threads.reporting pre = some c₁ ∧
        c₁.threads.world.PROFILER = some profiler ∧ outcome = call.atomic profiler ∧
        (c₁.threads.lost = true ∨ call.fault ≠ none → outcome.Refused) ∧
        (c₁.threads.lost = false → call.fault = none →
          outcome.Counts (c₁.threads.recorded.map Prod.snd)) := by
  refine ⟨reporting_projects.run hr,fun call outcome hmem => ?_⟩
  obtain ⟨profiler,⟨pre,post,i,c₁,hes,hpre,hp⟩,hout⟩ :=
    (sound_reporting_run hr).finished _ hmem
  refine ⟨pre,post,i,c₁,profiler,hes,hpre,hp,hout,?_⟩
  rw [hes,run_append_some hpre] at hr
  obtain ⟨c₂,henter,-⟩ := run_cons_eq_some hr
  obtain ⟨timer,-,-,hg,-⟩ := step_enter henter
  have hne : c₁.threads.world.guards ≠ [] := List.ne_nil_of_mem (List.mem_of_getElem? hg)
  obtain ⟨p,hq,hk⟩ := keeps_of_guard h₀ (reporting_projects.run hpre) hne
  rw [hp] at hq
  cases hq
  obtain rfl : outcome = call.atomic (.ok p) := hout
  refine ⟨fun hfail => ?_,fun hlost hfault => ?_⟩
  · cases call with
    | build_unresolved timing fault => exact (hk.refused (σ := σ) rfl hfail).1
    | build processor s timing fault => exact (hk.refused rfl hfail).2 s
  · have hold := hk.holding hlost
    cases call with
    | build_unresolved timing fault =>
      obtain rfl : fault = none := hfault
      exact hold.unresolved rfl
    | build processor s timing fault =>
      obtain rfl : fault = none := hfault
      exact hold.build rfl s

def ReportRun.left (p : Profiler F) : ReportRun F σ → Nat
  | .build_unresolved _ file_vec index _ => (collect (p.entries file_vec)).length-index
  | .build _ _ _ file_vec index _ => (collect (p.entries file_vec)).length-index

omit [DefaultHasher] in
theorem next_left {p : Profiler F} {run run' : ReportRun F σ} (h : run.next p = .inl run') :
    run'.left p < run.left p := by
  cases run with
  | build_unresolved timing file_vec index hash_map =>
    obtain ⟨ha,-⟩ | ⟨entry,ha,-⟩ := drop_of_answer p file_vec index
    · simp [ReportRun.next,ha] at h
    · have hi := ha
      rw [answer_eq] at hi
      obtain ⟨hi,-⟩ := List.getElem?_eq_some_iff.mp hi
      have hrun : ∃ m, run' = .build_unresolved timing file_vec (index+1) m := by
        simp only [ReportRun.next,ha] at h
        split at h
        · split at h <;> cases h
          exact ⟨_,rfl⟩
        · cases h
          exact ⟨_,rfl⟩
      obtain ⟨m,rfl⟩ := hrun
      simp only [ReportRun.left]
      omega
  | build processor s timing file_vec index hash_map =>
    obtain ⟨ha,-⟩ | ⟨entry,ha,-⟩ := drop_of_answer p file_vec index
    · simp [ReportRun.next,ha] at h
    · have hi := ha
      rw [answer_eq] at hi
      obtain ⟨hi,-⟩ := List.getElem?_eq_some_iff.mp hi
      have hrun : ∃ s' m, run' = .build processor s' timing file_vec (index+1) m := by
        simp only [ReportRun.next,ha] at h
        split at h
        · split at h <;> cases h
          exact ⟨_,_,rfl⟩
        · cases h
          exact ⟨_,_,rfl⟩
      obtain ⟨s',m,rfl⟩ := hrun
      simp only [ReportRun.left]
      omega

theorem write_next_returns {call : ReportCall σ} {r : ReportRun F σ} {p : Profiler F}
    (hw : c.writing = some (call,r)) (hp : c.threads.world.PROFILER = some (.ok p)) :
    ∃ n, run Reporting.step c (List.replicate n .write_next) = some { c with
      writing := none
      finished := c.finished ++ [(call,r.outcome p)] } := by
  induction hn : r.left p using Nat.strong_induction_on generalizing c r with
  | _ n ih =>
    subst hn
    rcases next_outcome p r with ⟨r',hnext,hout⟩ | hnext
    · have hs : c.step .write_next = some { c with writing := some (call,r') } := by
        simp only [Reporting.step,hw,hp,hnext]
      obtain ⟨n,hrun⟩ := ih (r'.left p) (next_left hnext)
        (c := { c with writing := some (call,r') }) rfl hp rfl
      refine ⟨n+1,?_⟩
      rw [List.replicate_succ,run_cons_some hs,hrun,hout]
    · have hs : c.step .write_next = some { c with
          writing := none
          finished := c.finished ++ [(call,r.outcome p)] } := by
        simp only [Reporting.step,hw,hp,hnext]
      exact ⟨1,run_cons_some hs []⟩

theorem run_others (hidle : c.underway = []) {es : List (Event F)} {threads : Threads F}
    (hr : run Threads.step c.threads es = some threads) :
    run Reporting.step c (es.map ReportEvent.other) = some { c with threads } := by
  induction es generalizing c with
  | nil =>
    cases hr
    rfl
  | cons e es ih =>
    obtain ⟨t,ht,hrest⟩ := run_cons_eq_some hr
    have hs : c.step (.other e) = some { c with threads := t } := by
      simp [Reporting.step,hidle,ht]
    rw [List.map_cons,run_cons_some hs]
    exact ih (c := { c with threads := t }) hidle hrest

theorem build_returns (i : Nat) (processor : Option (Frames → σ → Frames × σ)) (s : σ)
    (timing : ReportTiming) (fault : Option ReadFault) {timer : Timer} {p : Profiler F}
    (hl : c.threads.lock = .free) (hg : c.threads.world.guards[i]? = some ⟨some timer⟩)
    (hp : c.threads.world.PROFILER = some (.ok p)) (hidle : c.underway = []) :
    ∃ n, run Reporting.step c (.enter i (.build processor s timing fault) ::
        List.replicate n .write_next) = some { c with
      finished := c.finished ++ [(.build processor s timing fault,
        (ReportCall.build processor s timing fault).atomic (.ok p))] } := by
  obtain ⟨hreading,hwriting⟩ : c.reading = [] ∧ c.writing = none := by
    simpa [Reporting.underway] using hidle
  rcases enter_outcome (.ok p) (.build processor s timing fault) with ⟨q,r,hq,henter,hout⟩ | henter
  · cases hq
    have hs : c.step (.enter i (.build processor s timing fault)) = some { c with
        writing := some (.build processor s timing fault,r) } := by
      simp [Reporting.step,hl,hg,hp,hreading,hwriting,henter,ReportCall.exclusive]
    obtain ⟨n,hrun⟩ := write_next_returns (c := { c with
      writing := some (.build processor s timing fault,r) }) rfl hp
    refine ⟨n,?_⟩
    rw [run_cons_some hs,hrun,hout,← hwriting]
  · have hs : c.step (.enter i (.build processor s timing fault)) = some { c with
        finished := c.finished ++ [(.build processor s timing fault,
          (ReportCall.build processor s timing fault).atomic (.ok p))] } := by
      simp [Reporting.step,hl,hg,hp,hreading,hwriting,henter]
    exact ⟨0,run_cons_some hs []⟩

end Atomic

theorem reports_atomic_default :
    letI := plainTarget
    letI := plainHasher
    letI := plainLayout
    letI := plainResolver
    ∃ (n : Nat) (c : Reporting PlainFrame Unit) (call : ReportCall Unit)
      (outcome : Outcome PlainFrame) (samples : List (UnresolvedFrames PlainFrame)),
      run Reporting.step (plainWorld : World PlainFrame).threads.reporting
        ([.other (.build ProfilerGuardBuilder.default ⟨false,false⟩ plainClock),.other .arm,
          .other (.raise plainInterrupted),.other (.sample 0 none),
          .other (.raise plainInterrupted)] ++
          (.enter 0 call :: List.replicate n .write_next)) = some c ∧
      c.finished = [(call,outcome)] ∧ c.threads.handlers ≠ [] ∧ outcome.Counts samples := by
  let _ := plainTarget
  let _ := plainHasher
  let _ := plainLayout
  let _ := plainResolver
  obtain ⟨c,p,hrun,hp,hl,hh,hrec,hlost,hg,hsig⟩ : ∃ (c : Threads PlainFrame)
      (p : Profiler PlainFrame), run Threads.step plainWorld.threads
        [.build ProfilerGuardBuilder.default ⟨false,false⟩ plainClock,.arm,
          .raise plainInterrupted] = some c ∧ c.world.PROFILER = some (.ok p) ∧ c.lock = .free ∧
      c.handlers = [⟨1,plainInterrupted⟩] ∧ c.recorded = [] ∧ c.lost = false ∧
      (∃ timer, c.world.guards = [⟨some timer⟩]) ∧
      c.world.os.sigprof.handler = .perf_signal_handler :=
    ⟨_,_,rfl,rfl,rfl,rfl,rfl,rfl,⟨_,rfl⟩,rfl⟩
  obtain ⟨timer,hg⟩ := hg
  have hk := (exact_run plainWorld_fresh hrun).2.keeps p hp fun _ => .inl (by simp [hg])
  have hold := hk.holding hlost
  rw [hrec] at hold
  have hi : c.handlers[0]? = some ⟨1,plainInterrupted⟩ := by rw [hh]; rfl
  obtain ⟨profiler,hhand⟩ := hold.handler_total (by simp) plainInterrupted (by decide)
  obtain ⟨p',rfl,-⟩ := hold.handler hhand
  have hs := sample_ok hl hi hp hhand
  have hrun' := (run_snoc hrun (.sample 0 none)).trans hs
  obtain ⟨c',hc',hraise⟩ : ∃ c', run Threads.step plainWorld.threads
      [.build ProfilerGuardBuilder.default ⟨false,false⟩ plainClock,.arm,
        .raise plainInterrupted,.sample 0 none,.raise plainInterrupted] = some c' ∧
      c' = { c with
        world := { c.world with PROFILER := some (.ok p') }
        handlers := c.handlers.eraseIdx 0 ++ [⟨c.session,plainInterrupted⟩]
        recorded := c.recorded ++ (taken (.ok p) plainInterrupted).map (1,·)
        lost := c.lost || spillFails (.ok p) plainInterrupted none } := by
    refine ⟨_,(run_snoc hrun' (.raise plainInterrupted)).trans rfl,?_⟩
    simp only [Threads.signal,hsig,if_true]
  have hothers := run_others (c := (plainWorld : World PlainFrame).threads.reporting (σ := Unit))
    rfl hc'
  have hl' : c'.lock = .free := by rw [hraise]; exact hl
  have hg' : c'.world.guards[0]? = some ⟨some timer⟩ := by rw [hraise]; simp [hg]
  have hp' : c'.world.PROFILER = some (.ok p') := by rw [hraise]
  obtain ⟨n,hbuild⟩ := build_returns (σ := Unit) (c := c'.reporting) 0 none ()
    ReportTiming.default none hl' hg' hp' rfl
  have hall := (run_append_some hothers _).trans hbuild
  obtain ⟨-,hfin⟩ := reports_atomic plainWorld_fresh hall
  obtain ⟨pre,post,j,c₁,-,hes,hpre,-,-,-,hcounts⟩ := hfin _ _ (List.mem_singleton.mpr rfl)
  have hlost₁ : c₁.threads.lost = false := by
    by_contra hc
    obtain ⟨k,m,hmem⟩ := lost_run (reporting_projects.run hpre) (by simpa using hc)
    obtain ⟨e,he,hother⟩ := List.mem_filterMap.mp hmem
    cases e <;> cases hother
    have hin := List.mem_append_left
      (.enter j (.build none () ReportTiming.default none) :: post) he
    rw [← hes] at hin
    simp at hin
  exact ⟨n,_,_,_,_,hall,rfl,by simp [Threads.reporting,hraise],hcounts hlost₁ rfl⟩

end Pprof
