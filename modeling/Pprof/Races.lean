import Pprof.Keeping
import Pprof.Phases
set_option autoImplicit false

/-! What can go wrong between the pieces: signals that outlive the session they were
raised in, and runs of the handler that outlive it. -/

namespace Pprof
open Memory Runs

section Signals
variable {F : Type} [Layout (Entry (UnresolvedFrames F))] [Target]

def Threads.Covered (c : Threads F) : Prop :=
  c.pending = true → c.world.os.sigprof.handler = .perf_signal_handler

/-- No SIGPROF of the timer is pending any more when a drop restores the saved action,
unless that action ignores it. -/
def Settled (c : Threads F) : Event F → Prop
  | .restore _ fails => fails = false → c.pending = true → ∀ p act,
      c.world.PROFILER = some (.ok p) → p.old_sigaction = some act → act.handler = .SigIgn
  | _ => True

variable [Frame F] [DefaultHasher] {act : SigAction}

theorem covered_step (c : Threads F) (e : Event F) (c' : Threads F) (hph : c.Phase act)
    (h : c.Covered) (he : Settled c e) (hs : c.step e = some c') : c'.Covered := by
  cases e with
  | build b faults now =>
    obtain ⟨-,⟨err,-,rfl⟩ | ⟨p,-,rfl | ⟨-,rfl⟩⟩⟩ := step_build hs
    · exact h
    · exact h
    · exact fun _ => rfl
  | arm =>
    obtain ⟨frequency,now,-,⟨timer,os,hsig,rfl⟩ | rfl⟩ := step_arm hs
    · intro hp
      rw [hsig]
      exact h hp
    · exact h
  | disarm i =>
    obtain ⟨-,rfl⟩ := step_disarm hs
    intro hp
    rw [drop_sigprof]
    exact h hp
  | restore i fails =>
    obtain ⟨-,-,⟨p,hp,-,hf,rfl⟩ | ⟨p,-,-,-,rfl⟩ | ⟨-,rfl⟩⟩ := step_restore hs
    · intro hpend
      simp only [Bool.and_eq_true,decide_eq_true_eq] at hpend
      cases ho : p.old_sigaction with
      | none =>
        simp only [Option.getD_none]
        exact h hpend.1
      | some old =>
        rw [ho] at hpend
        rcases hf with hf | hf
        · rw [ho] at hf
          cases hf
        · exact absurd (he hf hpend.1 p old hp ho) hpend.2
    · exact h
    · exact h
  | reset fails =>
    obtain ⟨i,p,-,-,rfl⟩ := step_reset hs
    exact h
  | expire =>
    obtain ⟨ha,rfl⟩ := step_expire hs
    exact fun _ => hph.handler_of_armed ha
  | deliver at_ =>
    obtain ⟨-,rfl⟩ := step_deliver hs
    obtain ⟨handlers,hc⟩ := signal_eq { c with pending := false } at_
    rw [hc]
    exact nofun
  | raise at_ =>
    cases hs
    obtain ⟨handlers,hc⟩ := signal_eq c at_
    rw [hc]
    exact h
  | sample i fault =>
    obtain ⟨r,profiler,profiler',-,-,-,-,rfl⟩ := step_sample hs
    exact h
  | give_up i =>
    obtain rfl := step_give_up hs
    exact h

theorem unsettled_uncovers {c c' : Threads F} (hph : c.Phase act)
    (hact : act.handler ≠ .perf_signal_handler) {i : Nat} {fails : Bool}
    (he : ¬ Settled c (.restore i fails)) (hs : c.step (.restore i fails) = some c') :
    c'.pending = true ∧ c'.world.os.sigprof = act ∧ ¬ c'.Covered := by
  obtain ⟨p,hp,hr,hsaved,-⟩ := hph.restorable hs
  simp only [Settled,not_forall] at he
  obtain ⟨rfl,hpend,q,old,hq,ho,hne⟩ := he
  rw [hp] at hq
  cases hq
  rw [hsaved] at ho
  cases ho
  obtain ⟨-,-,⟨q,hq,-,-,rfl⟩ | ⟨-,-,-,hf,-⟩ | ⟨hn,-⟩⟩ := step_restore hs
  · rw [hp] at hq
    cases hq
    have hpend' : (c.pending && decide ((p.old_sigaction.getD c.world.os.sigprof).handler ≠
        .SigIgn)) = true := by simp [hsaved,hpend,hne]
    refine ⟨hpend',by simp [hsaved],fun hc => hact ?_⟩
    have hh := hc hpend'
    simpa [hsaved] using hh
  · cases hf
  · have hf := hn p hp
    rw [hr] at hf
    cases hf

/-- While drops only restore the saved action when no signal of the timer is pending, each
of these signals is delivered to the profiler's handler. What is restored is the action from
before the first session. -/
theorem own_signals_handled {w₀ : World F} (h₀ : w₀.Fresh) {es : List (Event F)}
    (he : Along Threads.step Settled w₀.threads es) {c : Threads F}
    (hrun : run Threads.step w₀.threads es = some c) :
    (∀ at_ c', c.step (.deliver at_) = some c' →
      c.world.os.sigprof.handler = .perf_signal_handler ∧ c.world.os.sigprof ≠ w₀.os.sigprof) ∧
    ∀ i fails c', c.step (.restore i fails) = some c' →
      ∃ p, c.world.PROFILER = some (.ok p) ∧ p.old_sigaction = some w₀.os.sigprof := by
  have hinv : c.Phase w₀.os.sigprof ∧ c.Covered := by
    refine invariant_along (I := fun c => c.Phase w₀.os.sigprof ∧ c.Covered) ?_
      ⟨h₀.phase,nofun⟩ he hrun
    rintro c e c' ⟨hph,hc⟩ he hs
    exact ⟨phase_step c e c' hph hs,covered_step c e c' hph hc he hs⟩
  obtain ⟨hph,hc⟩ := hinv
  constructor
  · intro at_ c' hs
    obtain ⟨hp,-⟩ := step_deliver hs
    refine ⟨hc hp,fun hsig => h₀.sigprof ?_⟩
    rw [← hsig]
    exact hc hp
  · intro i fails c' hs
    obtain ⟨p,hp,-,hsaved,-⟩ := hph.restorable hs
    exact ⟨p,hp,hsaved⟩

end Signals

section Samples
variable {F : Type} [Layout (Entry (UnresolvedFrames F))] [Target] [Frame F] [DefaultHasher]

theorem Holding.handler {p : Profiler F} {samples : List (UnresolvedFrames F)}
    (h : Holding p samples) {at_ : Interrupted F} {profiler : Except Error (Profiler F)}
    (hh : perf_signal_handler (.ok p) at_ none = .ok profiler) :
    ∃ p', profiler = .ok p' ∧ Holding p' (samples ++ taken (.ok p) at_) := by
  unfold perf_signal_handler at hh
  unfold taken
  by_cases hb : at_.addr.any p.is_blocklisted
  · simp only [hb,if_true] at hh ⊢
    cases hh
    exact ⟨p,rfl,by simpa using h⟩
  · simp only [hb] at hh ⊢
    obtain ⟨p',hs,hp⟩ := bind_eq_ok.mp hh
    obtain rfl := pure_eq_ok.mp hp
    obtain ⟨u,hu,-⟩ := bind_eq_ok.mp hs
    obtain ⟨h',-⟩ := h.sample hu hs
    exact ⟨p',rfl,by simpa [hu] using h'⟩

theorem Holding.handler_total {p : Profiler F} {samples : List (UnresolvedFrames F)}
    (h : Holding p samples) (hn : samples.length+1 < 2^31) (at_ : Interrupted F)
    (hname : at_.thread_name.length ≤ MAX_THREAD_NAME) :
    ∃ profiler, perf_signal_handler (.ok p) at_ none = .ok profiler := by
  unfold perf_signal_handler
  by_cases hb : at_.addr.any p.is_blocklisted
  · exact ⟨_,if_pos hb⟩
  · obtain ⟨p',hs,-⟩ := h.sample_total ⟨p.capture 0 at_.trace,at_.thread_name,at_.thread_id,
      at_.sample_timestamp,hname⟩ hn
    simp only [hb,hs]
    exact ⟨_,rfl⟩

structure Threads.Clean (c : Threads F) : Prop where
  stamped : ∀ s ∈ c.recorded, s.1 = c.session
  idle : c.world.guards = [] → c.recorded = [] ∧ c.lost = false
  profiler : ∀ p, c.world.PROFILER = some (.ok p) → p.Keeps (c.recorded.map Prod.snd) c.lost

/-- A run of the handler records nothing once the session of its signal is over, and
no call of a drop fails. -/
def Prompt (c : Threads F) : Event F → Prop
  | .restore _ fails => fails = false
  | .reset fails => fails = false
  | .sample i _ => ∀ run profiler, c.handlers[i]? = some run → c.world.PROFILER = some profiler →
      taken profiler run.at_ ≠ [] → c.world.guards ≠ [] ∧ run.session = c.session
  | _ => True

variable {act : SigAction}

theorem clean_build {c c' : Threads F} (hph : c.Phase act) (h : c.Clean)
    {b : ProfilerGuardBuilder} {faults : BuildFaults} {now : Clock}
    (hs : c.step (.build b faults now) = some c') : c'.Clean := by
  have hidle : c.world.running = false → c.world.guards = [] := by
    intro hn
    by_contra hg
    obtain ⟨p,hp,hr⟩ := hph.running_of_guard hg
    simp [World.running,hp,hr] at hn
  have htrigger : ∀ p, trigger_lazy c.world.PROFILER faults.create = .ok p →
      p.Keeps (c.recorded.map Prod.snd) c.lost := by
    intro p ht
    cases hp : c.world.PROFILER with
    | none =>
      obtain ⟨hempty,hlost⟩ := h.idle (hidle (by simp only [World.running,hp]))
      rw [hp] at ht
      cases hf : faults.create with
      | true =>
        rw [hf] at ht
        cases ht
      | false =>
        rw [hf] at ht
        rw [hempty,hlost]
        exact (holding_new ht).keeps
    | some profiler =>
      rw [hp] at ht
      cases ht
      exact h.profiler p hp
  obtain ⟨-,⟨err,ht,rfl⟩ | ⟨p,ht,rfl | ⟨hp,rfl⟩⟩⟩ := step_build hs
  · refine ⟨h.stamped,h.idle,fun q hq => ?_⟩
    cases hq
  · refine ⟨h.stamped,h.idle,fun q hq => ?_⟩
    cases hq
    exact (htrigger p ht).of_data rfl rfl
  · have hempty := h.idle (hidle ((trigger_running ht).symm.trans hp))
    refine ⟨by simp [hempty.1],fun _ => hempty,fun q hq => ?_⟩
    cases hq
    exact (htrigger p ht).of_data rfl rfl

theorem clean_restore {c c' : Threads F} (hph : c.Phase act) (h : c.Clean) {i : Nat}
    (hs : c.step (.restore i false) = some c') : c'.Clean := by
  obtain ⟨p,hp,hr,-⟩ := hph.restorable hs
  obtain ⟨-,-,⟨q,hq,-,-,rfl⟩ | ⟨q,-,-,hf,-⟩ | ⟨hn,-⟩⟩ := step_restore hs
  · refine ⟨h.stamped,h.idle,fun q' hq' => ?_⟩
    cases hq'
    exact (h.profiler q hq).of_data rfl rfl
  · cases hf
  · have hf := hn p hp
    rw [hr] at hf
    cases hf

theorem clean_reset {c c' : Threads F} (hs : c.step (.reset false) = some c') : c'.Clean := by
  obtain ⟨i,p,-,-,rfl⟩ := step_reset hs
  refine ⟨by simp,fun _ => ⟨rfl,rfl⟩,fun q hq => ?_⟩
  cases hq
  exact holding_init.keeps

theorem clean_sample {c c' : Threads F} (h : c.Clean) {i : Nat} {fault : Option Nat}
    (he : Prompt c (.sample i fault)) (hs : c.step (.sample i fault) = some c') : c'.Clean := by
  obtain ⟨r,profiler,profiler',-,hr,hp,hh,rfl⟩ := step_sample hs
  have hcond := he r profiler hr hp
  refine ⟨?_,?_,?_⟩
  · intro s hs
    rcases List.mem_append.mp hs with hs | hs
    · exact h.stamped s hs
    · obtain ⟨u,hu,rfl⟩ := List.mem_map.mp hs
      exact (hcond (List.ne_nil_of_mem hu)).2
  · intro hg
    have hnil : taken profiler r.at_ = [] := by
      by_contra hne
      exact (hcond hne).1 hg
    obtain ⟨hempty,hlost⟩ := h.idle hg
    exact ⟨by simp [hempty,hnil],by simp [hlost,spillFails_of_not_taken hnil]⟩
  · intro q hq
    cases profiler with
    | error err =>
      cases hh
      cases hq
    | ok p =>
      obtain ⟨p',rfl,-,hk⟩ := handler_spill (h.profiler p hp) hh
      cases hq
      simpa [Function.comp_def] using hk

theorem late_unclean {c c' : Threads F} {i : Nat} {fault : Option Nat}
    (he : ¬ Prompt c (.sample i fault)) (hs : c.step (.sample i fault) = some c') :
    ¬ c'.Clean := by
  obtain ⟨r,profiler,profiler',-,hr,hp,-,rfl⟩ := step_sample hs
  intro h
  apply he
  intro r' q hr' hq hne
  rw [hr] at hr'
  rw [hp] at hq
  cases hr'
  cases hq
  obtain ⟨u,hu⟩ := List.exists_mem_of_ne_nil _ hne
  have hmem : (r.session,u) ∈ c.recorded ++ (taken profiler r.at_).map (r.session,·) :=
    List.mem_append_right _ (List.mem_map_of_mem hu)
  refine ⟨fun hg => ?_,h.stamped _ hmem⟩
  exact List.ne_nil_of_mem hmem (h.idle hg).1

theorem clean_step (c : Threads F) (e : Event F) (c' : Threads F) (hph : c.Phase act)
    (h : c.Clean) (he : Prompt c e) (hs : c.step e = some c') : c'.Clean := by
  cases e with
  | build b faults now => exact clean_build hph h hs
  | arm =>
    obtain ⟨frequency,now,-,⟨timer,os,-,rfl⟩ | rfl⟩ := step_arm hs
    · exact ⟨h.stamped,by simp,h.profiler⟩
    · exact ⟨h.stamped,h.idle,h.profiler⟩
  | disarm i =>
    obtain ⟨-,rfl⟩ := step_disarm hs
    exact ⟨h.stamped,fun hg => h.idle (by simpa using hg),h.profiler⟩
  | restore i fails =>
    obtain rfl := he
    exact clean_restore hph h hs
  | reset fails =>
    obtain rfl := he
    exact clean_reset hs
  | sample i fault => exact clean_sample h he hs
  | expire | deliver at_ | raise at_ | give_up i =>
    obtain ⟨pending,handlers,rfl⟩ := step_aside rfl hs
    exact ⟨h.stamped,h.idle,h.profiler⟩

/-- Some signal of the run was delivered to the profiler's handler when this session was
the last one to have started. -/
def Delivered (w₀ : World F) (es : List (Event F)) (session : Nat) : Prop :=
  ∃ pre e post at_ c, es = pre ++ e :: post ∧ (e = .deliver at_ ∨ e = .raise at_) ∧
    run Threads.step w₀.threads pre = some c ∧
    c.world.os.sigprof.handler = .perf_signal_handler ∧ c.session = session

theorem Delivered.snoc {w₀ : World F} {es : List (Event F)} {session : Nat}
    (h : Delivered w₀ es session) (e : Event F) : Delivered w₀ (es ++ [e]) session := by
  obtain ⟨pre,e',post,at_,c,rfl,he,hr,hh,hs⟩ := h
  exact ⟨pre,e',post ++ [e],at_,c,by simp,he,hr,hh,hs⟩

omit [Frame F] [DefaultHasher] in
theorem signal_handlers {c : Threads F} {at_ : Interrupted F} {r : HandlerRun F}
    (h : r ∈ (c.signal at_).handlers) : r ∈ c.handlers ∨
      c.world.os.sigprof.handler = .perf_signal_handler ∧ r.session = c.session := by
  unfold Threads.signal at h
  split at h
  · rename_i hh
    rcases List.mem_append.mp h with h | h
    · exact .inl h
    · rw [List.mem_singleton.mp h]
      exact .inr ⟨hh,rfl⟩
  · exact .inl h

theorem step_handlers {c c' : Threads F} {e : Event F} (hs : c.step e = some c')
    {r : HandlerRun F} (hr : r ∈ c'.handlers) : r ∈ c.handlers ∨
      (∃ at_, e = .deliver at_ ∨ e = .raise at_) ∧
        c.world.os.sigprof.handler = .perf_signal_handler ∧ r.session = c.session := by
  cases e with
  | build b faults now =>
    obtain ⟨-,⟨err,-,rfl⟩ | ⟨p,-,rfl | ⟨-,rfl⟩⟩⟩ := step_build hs <;> exact .inl hr
  | arm =>
    obtain ⟨frequency,now,-,⟨timer,os,-,rfl⟩ | rfl⟩ := step_arm hs <;> exact .inl hr
  | disarm i =>
    obtain ⟨-,rfl⟩ := step_disarm hs
    exact .inl hr
  | restore i fails =>
    obtain ⟨-,-,⟨p,-,-,-,rfl⟩ | ⟨p,-,-,-,rfl⟩ | ⟨-,rfl⟩⟩ := step_restore hs <;> exact .inl hr
  | reset fails =>
    obtain ⟨i,p,-,-,rfl⟩ := step_reset hs
    exact .inl hr
  | expire =>
    obtain ⟨-,rfl⟩ := step_expire hs
    exact .inl hr
  | deliver at_ =>
    obtain ⟨-,rfl⟩ := step_deliver hs
    rcases signal_handlers hr with hr | hr
    · exact .inl hr
    · exact .inr ⟨⟨at_,.inl rfl⟩,hr⟩
  | raise at_ =>
    cases hs
    rcases signal_handlers hr with hr | hr
    · exact .inl hr
    · exact .inr ⟨⟨at_,.inr rfl⟩,hr⟩
  | sample i fault =>
    obtain ⟨run,profiler,profiler',-,-,-,-,rfl⟩ := step_sample hs
    exact .inl (List.mem_of_mem_eraseIdx hr)
  | give_up i =>
    obtain rfl := step_give_up hs
    exact .inl (List.mem_of_mem_eraseIdx hr)

theorem step_recorded {c c' : Threads F} {e : Event F} (hs : c.step e = some c')
    {s : Nat × UnresolvedFrames F} (h : s ∈ c'.recorded) :
    s ∈ c.recorded ∨ ∃ r ∈ c.handlers, r.session = s.1 := by
  cases e with
  | build b faults now =>
    obtain ⟨-,⟨err,-,rfl⟩ | ⟨p,-,rfl | ⟨-,rfl⟩⟩⟩ := step_build hs <;> exact .inl h
  | arm =>
    obtain ⟨frequency,now,-,⟨timer,os,-,rfl⟩ | rfl⟩ := step_arm hs <;> exact .inl h
  | disarm i =>
    obtain ⟨-,rfl⟩ := step_disarm hs
    exact .inl h
  | restore i fails =>
    obtain ⟨-,-,⟨p,-,-,-,rfl⟩ | ⟨p,-,-,-,rfl⟩ | ⟨-,rfl⟩⟩ := step_restore hs <;> exact .inl h
  | reset fails =>
    obtain ⟨i,p,-,-,rfl⟩ := step_reset hs
    cases fails with
    | true => exact .inl h
    | false => cases h
  | sample i fault =>
    obtain ⟨run,profiler,profiler',-,hr,-,-,rfl⟩ := step_sample hs
    rcases List.mem_append.mp h with h | h
    · exact .inl h
    · obtain ⟨u,-,rfl⟩ := List.mem_map.mp h
      exact .inr ⟨run,List.mem_of_getElem? hr,rfl⟩
  | expire | deliver at_ | raise at_ | give_up i =>
    obtain ⟨pending,handlers,rfl⟩ := step_aside rfl hs
    exact .inl h

theorem recorded_delivered {w₀ : World F} {es : List (Event F)} {c : Threads F}
    (hrun : run Threads.step w₀.threads es = some c) :
    (∀ r ∈ c.handlers, Delivered w₀ es r.session) ∧ ∀ s ∈ c.recorded, Delivered w₀ es s.1 := by
  induction es using List.reverseRecOn generalizing c with
  | nil =>
    cases hrun
    exact ⟨nofun,nofun⟩
  | append_singleton es e ih =>
    obtain ⟨c₁,h₁,hs⟩ := run_snoc_eq_some hrun
    obtain ⟨hhand,hrec⟩ := ih h₁
    constructor
    · intro r hr
      rcases step_handlers hs hr with hr | ⟨⟨at_,he⟩,hh,hsess⟩
      · exact (hhand r hr).snoc e
      · exact ⟨es,e,[],at_,c₁,rfl,he,h₁,hh,hsess.symm⟩
    · intro s hmem
      rcases step_recorded hs hmem with hmem | ⟨r,hr,hsess⟩
      · exact (hrec s hmem).snoc e
      · rw [← hsess]
        exact (hhand r hr).snoc e

theorem step_lost {c c' : Threads F} {e : Event F} (hs : c.step e = some c')
    (h : c'.lost = true) : c.lost = true ∨ ∃ i n, e = .sample i (some n) := by
  cases e with
  | build b faults now =>
    obtain ⟨-,⟨err,-,rfl⟩ | ⟨p,-,rfl | ⟨-,rfl⟩⟩⟩ := step_build hs <;> exact .inl h
  | arm =>
    obtain ⟨frequency,now,-,⟨timer,os,-,rfl⟩ | rfl⟩ := step_arm hs <;> exact .inl h
  | disarm i =>
    obtain ⟨-,rfl⟩ := step_disarm hs
    exact .inl h
  | restore i fails =>
    obtain ⟨-,-,⟨p,-,-,-,rfl⟩ | ⟨p,-,-,-,rfl⟩ | ⟨-,rfl⟩⟩ := step_restore hs <;> exact .inl h
  | reset fails =>
    obtain ⟨i,p,-,-,rfl⟩ := step_reset hs
    exact .inl (Bool.and_eq_true_iff.mp h).2
  | sample i fault =>
    obtain ⟨run,profiler,profiler',-,-,-,-,rfl⟩ := step_sample hs
    cases fault with
    | none => exact .inl (by simpa [spillFails_none] using h)
    | some n => exact .inr ⟨i,n,rfl⟩
  | expire | deliver at_ | raise at_ | give_up i =>
    obtain ⟨pending,handlers,rfl⟩ := step_aside rfl hs
    exact .inl h

theorem lost_run {w₀ : World F} {es : List (Event F)} {c : Threads F}
    (hrun : run Threads.step w₀.threads es = some c) (h : c.lost = true) :
    ∃ i n, .sample i (some n) ∈ es := by
  induction es using List.reverseRecOn generalizing c with
  | nil =>
    cases hrun
    cases h
  | append_singleton es e ih =>
    obtain ⟨c₁,h₁,hs⟩ := run_snoc_eq_some hrun
    rcases step_lost hs h with hl | ⟨i,n,rfl⟩
    · obtain ⟨i,n,hmem⟩ := ih h₁ hl
      exact ⟨i,n,List.mem_append_left _ hmem⟩
    · exact ⟨i,n,List.mem_append_right _ (List.mem_singleton.mpr rfl)⟩

theorem clean_run {w₀ : World F} (h₀ : w₀.Fresh) {es : List (Event F)}
    (he : Along Threads.step Prompt w₀.threads es) {c : Threads F}
    (hrun : run Threads.step w₀.threads es = some c) : c.Phase w₀.os.sigprof ∧ c.Clean := by
  have hinit : w₀.threads.Clean := by
    refine ⟨nofun,fun _ => ⟨rfl,rfl⟩,fun p hp => ?_⟩
    have hnone : w₀.threads.world.PROFILER = none := h₀.PROFILER
    rw [hnone] at hp
    cases hp
  refine invariant_along (I := fun c => c.Phase w₀.os.sigprof ∧ c.Clean) ?_
    ⟨h₀.phase,hinit⟩ he hrun
  rintro c e c' ⟨hph,hc⟩ he hs
  exact ⟨phase_step c e c' hph hs,clean_step c e c' hph hc he hs⟩

variable [Resolver] {σ : Type}

/-- While the handler's runs do not outlive their session, a report counts the samples
whose signals were delivered in the session of its guard, and there are none without a
guard. Where a write of the session has failed there is no report. -/
theorem samples_in_session {w₀ : World F} (h₀ : w₀.Fresh) {es : List (Event F)}
    (he : Along Threads.step Prompt w₀.threads es) {c : Threads F}
    (hrun : run Threads.step w₀.threads es = some c) :
    (c.world.guards = [] → ∀ p, c.world.PROFILER = some (.ok p) → p.data.Empty) ∧
    (∀ s ∈ c.recorded, s.1 = c.session ∧ Delivered w₀ es c.session) ∧
    ∀ guard ∈ c.world.guards, ∀ profiler, c.world.PROFILER = some profiler →
      ∀ (now : Clock) (processor : Option (Frames → σ → Frames × σ)),
        let b : ReportBuilder F σ := { guard.report (σ := σ) profiler now with
          frames_post_processor := processor }
        (c.lost = true → (∃ i n, .sample i (some n) ∈ es) ∧
          (∃ err, b.build_unresolved none = .ok (.error (.IoError err))) ∧
          ∀ s, ∃ err, b.build s none = .ok (.error (.IoError err))) ∧
        (c.lost = false →
          (∃ r, b.build_unresolved none = .ok (.ok r) ∧
            ∀ k, r.data.get k = if (c.recorded.map Prod.snd).countP (· == k) = 0 then none
              else some ((c.recorded.map Prod.snd).countP (· == k) : ℤ)) ∧
          ∀ s, ∃ r, b.build s none = .ok (.ok r) ∧ (∀ e ∈ r.data.entries, 0 < e.2) ∧
            (r.data.entries.map Prod.snd).sum = (c.recorded.length : ℤ)) := by
  obtain ⟨hph,hc⟩ := clean_run h₀ he hrun
  refine ⟨?_,?_,?_⟩
  · intro hg p hp
    obtain ⟨hempty,hlost⟩ := hc.idle hg
    have hold := (hc.profiler p hp).holding hlost
    rw [hempty] at hold
    exact hold.data.empty
  · intro s hs
    have hd := (recorded_delivered hrun).2 s hs
    rw [hc.stamped s hs] at hd
    exact ⟨hc.stamped s hs,hd⟩
  · intro guard hg profiler hp now processor b
    obtain ⟨p,hp',-⟩ := hph.running_of_guard (List.ne_nil_of_mem hg)
    rw [hp] at hp'
    cases hp'
    have hk := hc.profiler p hp
    constructor
    · intro hlost
      exact ⟨lost_run hrun hlost,hk.refused rfl (.inl hlost)⟩
    · intro hlost
      have hold := hk.holding hlost
      refine ⟨hold.unresolved rfl,fun s => ?_⟩
      obtain ⟨r,hr,hpos,hsum⟩ := hold.build (b := b) rfl s
      exact ⟨r,hr,hpos,by simpa using hsum⟩

end Samples

def plainInterrupted : Interrupted PlainFrame where
  addr := none
  trace := [⟨1,0,[⟨some [97],none,none,none⟩]⟩]
  thread_name := [109,97,105,110]
  thread_id := 1
  sample_timestamp := ⟨0,0⟩

theorem own_signals_handled_default :
    letI := plainTarget
    letI := plainHasher
    letI := plainLayout
    ∃ c c' : Threads PlainFrame, run Threads.step plainWorld.threads
        [.build ProfilerGuardBuilder.default ⟨false,false⟩ plainClock,.arm,.expire,
          .deliver plainInterrupted,.disarm 0,.restore 0 false,.reset false,
          .build ProfilerGuardBuilder.default ⟨false,false⟩ plainClock,.arm,.expire] = some c ∧
      c.step (.deliver plainInterrupted) = some c' ∧
      c.world.os.sigprof.handler = .perf_signal_handler := by
  let _ := plainTarget
  let _ := plainHasher
  let _ := plainLayout
  have hops : Along Threads.step Settled (plainWorld : World PlainFrame).threads
      [.build ProfilerGuardBuilder.default ⟨false,false⟩ plainClock,.arm,.expire,
        .deliver plainInterrupted,.disarm 0,.restore 0 false,.reset false,
        .build ProfilerGuardBuilder.default ⟨false,false⟩ plainClock,.arm,.expire] := by
    refine .cons trivial rfl (.cons trivial rfl (.cons trivial rfl (.cons trivial rfl
      (.cons trivial rfl (.cons ?_ rfl (.cons trivial rfl (.cons trivial rfl
        (.cons trivial rfl (.cons trivial rfl trivial)))))))))
    exact fun _ hp => nomatch hp
  obtain ⟨c,hrun,c',hs⟩ : ∃ c, run Threads.step (plainWorld : World PlainFrame).threads
      [.build ProfilerGuardBuilder.default ⟨false,false⟩ plainClock,.arm,.expire,
        .deliver plainInterrupted,.disarm 0,.restore 0 false,.reset false,
        .build ProfilerGuardBuilder.default ⟨false,false⟩ plainClock,.arm,.expire] = some c ∧
      ∃ c', c.step (.deliver plainInterrupted) = some c' := ⟨_,rfl,_,rfl⟩
  obtain ⟨hdel,-⟩ := own_signals_handled plainWorld_fresh hops hrun
  exact ⟨c,c',hrun,hs,(hdel _ _ hs).1⟩

theorem pending_signal_unhandled :
    letI := plainTarget
    letI := plainHasher
    letI := plainLayout
    ∃ c c' : Threads PlainFrame, run Threads.step plainWorld.threads
        [.build ProfilerGuardBuilder.default ⟨false,false⟩ plainClock,.arm,.expire,
          .disarm 0,.restore 0 false,.reset false] = some c ∧
      c.step (.deliver plainInterrupted) = some c' ∧
      c.world.os.sigprof = (plainWorld : World PlainFrame).os.sigprof ∧
      c.world.os.sigprof.handler = .SigDfl := by
  let _ := plainTarget
  let _ := plainHasher
  let _ := plainLayout
  exact ⟨_,_,rfl,rfl,rfl,rfl⟩

theorem samples_in_session_default :
    letI := plainTarget
    letI := plainHasher
    letI := plainLayout
    letI := plainResolver
    ∃ (c : Threads PlainFrame) (guard : ProfilerGuard) (p : Profiler PlainFrame) (r : Report),
      run Threads.step plainWorld.threads
        [.build ProfilerGuardBuilder.default ⟨false,false⟩ plainClock,.arm,
          .raise plainInterrupted,.sample 0 none] = some c ∧
      guard ∈ c.world.guards ∧ c.world.PROFILER = some (.ok p) ∧
      (∀ s ∈ c.recorded, s.1 = c.session) ∧
      (guard.report (.ok p) plainClock).build () none = .ok (.ok r) ∧
      (r.data.entries.map Prod.snd).sum = 1 := by
  let _ := plainTarget
  let _ := plainHasher
  let _ := plainLayout
  let _ := plainResolver
  have hops : Along Threads.step Prompt (plainWorld : World PlainFrame).threads
      [.build ProfilerGuardBuilder.default ⟨false,false⟩ plainClock,.arm,
        .raise plainInterrupted] :=
    .cons trivial rfl (.cons trivial rfl (.cons trivial rfl trivial))
  obtain ⟨c,p,hrun,hp,hl,hh,hrec,hlost,hg,hsess⟩ : ∃ (c : Threads PlainFrame)
      (p : Profiler PlainFrame), run Threads.step plainWorld.threads
        [.build ProfilerGuardBuilder.default ⟨false,false⟩ plainClock,.arm,
          .raise plainInterrupted] = some c ∧ c.world.PROFILER = some (.ok p) ∧ c.lock = .free ∧
      c.handlers = [⟨1,plainInterrupted⟩] ∧ c.recorded = [] ∧ c.lost = false ∧
      c.world.guards ≠ [] ∧ c.session = 1 := ⟨_,_,rfl,rfl,rfl,rfl,rfl,rfl,nofun,rfl⟩
  have hold := ((clean_run plainWorld_fresh hops hrun).2.profiler p hp).holding hlost
  rw [hrec] at hold
  have hi : c.handlers[0]? = some ⟨1,plainInterrupted⟩ := by rw [hh]; rfl
  obtain ⟨profiler,hhand⟩ := hold.handler_total (by simp) plainInterrupted (by decide)
  obtain ⟨p',rfl,-⟩ := hold.handler hhand
  have hs := sample_ok hl hi hp hhand
  have hprompt : Prompt c (.sample 0 none) := by
    intro r profiler hr _ _
    rw [hi] at hr
    cases hr
    exact ⟨hg,hsess.symm⟩
  have hrun' := (run_snoc hrun (.sample 0 none)).trans hs
  obtain ⟨-,hstamp,hreport⟩ := samples_in_session (σ := Unit) plainWorld_fresh
    (hops.snoc hrun hprompt) hrun'
  obtain ⟨guard,hguard⟩ := List.exists_mem_of_ne_nil _ hg
  obtain ⟨-,hkept⟩ := hreport guard hguard (.ok p') rfl plainClock none
  obtain ⟨-,hbuild⟩ := hkept (by simp [hlost,spillFails_none])
  obtain ⟨r,hr,-,hsum⟩ := hbuild ()
  refine ⟨_,guard,p',r,hrun',hguard,rfl,fun s hm => (hstamp s hm).1,hr,?_⟩
  rw [hsum,hrec]
  rfl

/-- A run of the handler gets the lock only after its session: it records a sample when
no guard is there, and the report of the next session counts it. -/
theorem late_sample_leaks :
    letI := plainTarget
    letI := plainHasher
    letI := plainLayout
    ∃ (c c' : Threads PlainFrame) (guard : ProfilerGuard) (p p' : Profiler PlainFrame)
      (u : UnresolvedFrames PlainFrame) (r : UnresolvedReport PlainFrame),
      run Threads.step plainWorld.threads
        [.build ProfilerGuardBuilder.default ⟨false,false⟩ plainClock,.arm,
          .raise plainInterrupted,.disarm 0,.restore 0 false,.reset false,.sample 0 none] =
          some c ∧
      c.world.guards = [] ∧ c.world.PROFILER = some (.ok p) ∧ ¬ p.data.Empty ∧
      run Threads.step c
        [.build ProfilerGuardBuilder.default ⟨false,false⟩ plainClock,.arm] = some c' ∧
      c'.world.guards = [guard] ∧ c'.session = 2 ∧ c'.recorded = [(1,u)] ∧
      c'.world.PROFILER = some (.ok p') ∧
      (guard.report (σ := Unit) (.ok p') plainClock).build_unresolved none = .ok (.ok r) ∧
      r.data.get u = some 1 := by
  let _ := plainTarget
  let _ := plainHasher
  let _ := plainLayout
  have hops : Along Threads.step Prompt (plainWorld : World PlainFrame).threads
      [.build ProfilerGuardBuilder.default ⟨false,false⟩ plainClock,.arm,
        .raise plainInterrupted,.disarm 0,.restore 0 false,.reset false] :=
    .cons trivial rfl (.cons trivial rfl (.cons trivial rfl (.cons trivial rfl
      (.cons rfl rfl (.cons rfl rfl trivial)))))
  obtain ⟨c,p,hrun,hp,hl,hh,hrec,hlost,hg,hsess,hr⟩ : ∃ (c : Threads PlainFrame)
      (p : Profiler PlainFrame), run Threads.step plainWorld.threads
        [.build ProfilerGuardBuilder.default ⟨false,false⟩ plainClock,.arm,
          .raise plainInterrupted,.disarm 0,.restore 0 false,.reset false] = some c ∧
      c.world.PROFILER = some (.ok p) ∧ c.lock = .free ∧
      c.handlers = [⟨1,plainInterrupted⟩] ∧ c.recorded = [] ∧ c.lost = false ∧
      c.world.guards = [] ∧ c.session = 1 ∧ p.running = false :=
    ⟨_,_,rfl,rfl,rfl,rfl,rfl,rfl,rfl,rfl,rfl⟩
  have hold := ((clean_run plainWorld_fresh hops hrun).2.profiler p hp).holding hlost
  rw [hrec] at hold
  have hi : c.handlers[0]? = some ⟨1,plainInterrupted⟩ := by rw [hh]; rfl
  obtain ⟨profiler,hhand⟩ := hold.handler_total (by simp) plainInterrupted (by decide)
  obtain ⟨p',rfl,hrunning,-⟩ := handler_keeps hhand
  obtain ⟨q,hq,hold'⟩ := hold.handler hhand
  cases hq
  obtain ⟨u,hu⟩ : ∃ u, taken (.ok p) plainInterrupted = [u] := ⟨_,rfl⟩
  rw [hu] at hold'
  -- the late sample
  obtain ⟨c₁,hs₁,hl₁,hp₁,hg₁,hrec₁,hsess₁⟩ : ∃ c₁, c.step (.sample 0 none) = some c₁ ∧
      c₁.lock = .free ∧ c₁.world.PROFILER = some (.ok p') ∧ c₁.world.guards = [] ∧
      c₁.recorded = [(1,u)] ∧ c₁.session = 1 :=
    ⟨_,sample_ok hl hi hp hhand,hl,rfl,hg,by rw [hrec,hu]; rfl,hsess⟩
  -- the next session
  have ht : trigger_lazy c₁.world.PROFILER (⟨false,false⟩ : BuildFaults).create = .ok p' := by
    rw [hp₁]
    rfl
  have hs₂ := build_starts (b := ProfilerGuardBuilder.default) hl₁ ht (hrunning.trans hr) rfl
    plainClock
  have hf : ProfilerGuardBuilder.default.frequency ≠ 0 := by decide
  obtain ⟨timer,hn⟩ := timer_new_total { c₁.world.os with
    sigprof := (ProfilerGuardBuilder.default.configure p').handlerAction } hf plainClock
  have hs₃ := arm_ok (c := { c₁ with
    world := { c₁.world with
      PROFILER := some (.ok (ProfilerGuardBuilder.default.started p' c₁.world.os))
      os := { c₁.world.os with
        sigprof := (ProfilerGuardBuilder.default.configure p').handlerAction } }
    lock := .building ProfilerGuardBuilder.default.frequency plainClock
    session := c₁.session+1 }) rfl hn
  have hold₃ : Holding (ProfilerGuardBuilder.default.started p' c₁.world.os) [u] :=
    ⟨hold'.data,hold'.sample_counter,hold'.fits⟩
  obtain ⟨r,hbuild,hcount⟩ := hold₃.unresolved (σ := Unit)
    (b := (⟨some timer⟩ : ProfilerGuard).report (.ok _) plainClock) rfl
  refine ⟨c₁,_,⟨some timer⟩,p',_,u,r,(run_snoc hrun (.sample 0 none)).trans hs₁,hg₁,hp₁,
    hold'.not_empty nofun,(run_cons_some hs₂ _).trans (run_cons_some hs₃ []),by simp [hg₁],
    by simp [hsess₁],hrec₁,rfl,hbuild,?_⟩
  rw [hcount u]
  simp

end Pprof
