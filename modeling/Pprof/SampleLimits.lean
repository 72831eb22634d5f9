import Pprof.ReportFaults
set_option autoImplicit false

/-! How long samples can be taken. The counts in memory never overflow before the counter of
the samples does, whatever was lost on the way to the file and whichever call of a drop has
failed; so that counter alone decides whether a handler run panics. -/

namespace Pprof
open Memory Runs

section Limits
variable {F : Type} [Layout (Entry (UnresolvedFrames F))] [Target] [Frame F] [DefaultHasher]

/-- The counter in memory goes back to samples of which there are not many more than were
counted. A reset that fails half-way sets the count to zero and keeps the entries. -/
structure Profiler.Tallied (p : Profiler F) (slack : Nat) : Prop where
  posted : ∃ samples, SlotsPosted p.data.map (history samples) ∧
    (samples.length : ℤ) ≤ p.sample_counter+slack
  counted : 0 ≤ p.sample_counter
  fits : p.sample_counter < 2^31

theorem Holding.tallied {p : Profiler F} {samples : List (UnresolvedFrames F)}
    (h : Holding p samples) : p.Tallied 0 := by
  have hn := h.fits
  have hc := h.sample_counter
  exact ⟨⟨samples,h.data.slots,by omega⟩,by omega,by omega⟩

theorem Profiler.Tallied.of_data {p q : Profiler F} {slack : Nat} (h : p.Tallied slack)
    (hd : q.data = p.data) (hc : q.sample_counter = p.sample_counter) : q.Tallied slack := by
  obtain ⟨hp,h₀,h₁⟩ := h
  rw [← hd,← hc] at hp
  rw [← hc] at h₀ h₁
  exact ⟨hp,h₀,h₁⟩

theorem Profiler.Tallied.mono {p : Profiler F} {slack slack' : Nat} (h : p.Tallied slack)
    (hs : slack ≤ slack') : p.Tallied slack' := by
  obtain ⟨⟨samples,hp,hn⟩,h₀,h₁⟩ := h
  exact ⟨⟨samples,hp,by omega⟩,h₀,h₁⟩

omit [Layout (Entry (UnresolvedFrames F))] [Target] in
theorem history_in_range {samples : List (UnresolvedFrames F)} (h : samples.length < 2^63) :
    SumsInRange (history samples) := by
  apply sumsInRange_of_nonneg
  · intro a ha
    exact Int.le_of_lt (history_pos _ a ha)
  · rw [history_sum]
    omega

section Sampling
variable {p : Profiler F} {slack : Nat} {backtrace : List F} {thread_name : List UInt8}
  {thread_id : UInt64} {sample_timestamp : SystemTime} {fault : Option Nat}

theorem Profiler.Tallied.sampled {p' : Profiler F} (h : p.Tallied slack)
    (hs : p.sample backtrace thread_name thread_id sample_timestamp fault = .ok p') :
    p'.Tallied slack := by
  obtain ⟨⟨samples,hp,hn⟩,h₀,h₁⟩ := h
  obtain ⟨u,-,hs⟩ := bind_eq_ok.mp hs
  obtain ⟨n,hcount,hs⟩ := bind_eq_ok.mp hs
  obtain ⟨⟨r,data⟩,hadd,hs⟩ := bind_eq_ok.mp hs
  obtain rfl := pure_eq_ok.mp hs
  have hrange : InI32 (p.sample_counter+1) := by
    by_contra hc
    rw [addI32,if_neg hc] at hcount
    cases hcount
  rw [addI32,if_pos hrange] at hcount
  cases hcount
  have hp' : SlotsPosted data.map (history (samples ++ [u])) := by
    rw [← history_snoc]
    rcases collector_add_cases hadd with ⟨hm,-⟩ | ⟨evict,hm,-⟩
    · exact hp.add hm
    · exact hp.add hm
  unfold InI32 at hrange
  refine ⟨⟨samples ++ [u],hp',?_⟩,?_,?_⟩
  · rw [List.length_append,List.length_singleton]
    push_cast
    omega
  · simp only
    omega
  · simp only
    omega

theorem Profiler.Tallied.sample_ok_iff (h : p.Tallied slack) (hslack : slack ≤ 2^31)
    (backtrace : List F) (hname : thread_name.length ≤ MAX_THREAD_NAME) (thread_id : UInt64)
    (sample_timestamp : SystemTime) (fault : Option Nat) :
    (∃ p', p.sample backtrace thread_name thread_id sample_timestamp fault = .ok p') ↔
      p.sample_counter ≠ 2^31-1 := by
  obtain ⟨⟨samples,hp,hn⟩,h₀,h₁⟩ := h
  have hnew : UnresolvedFrames.new backtrace thread_name thread_id sample_timestamp =
      .ok (UnresolvedFrames.named backtrace thread_name thread_id sample_timestamp hname) :=
    dif_pos hname
  constructor
  · rintro ⟨p',hs⟩ hmax
    obtain ⟨u,-,hs⟩ := bind_eq_ok.mp hs
    obtain ⟨n,hcount,-⟩ := bind_eq_ok.mp hs
    rw [addI32,if_neg (by unfold InI32; omega)] at hcount
    cases hcount
  · intro hmax
    have hcount : addI32 p.sample_counter 1 = .ok (p.sample_counter+1) :=
      if_pos (by unfold InI32; omega)
    have hr : SumsInRange (history samples ++
        [(UnresolvedFrames.named backtrace thread_name thread_id sample_timestamp hname,1)]) := by
      rw [history_snoc]
      apply history_in_range
      rw [List.length_append,List.length_singleton]
      omega
    obtain ⟨r,hadd⟩ := collector_add_of_map (hp.add_total hr) fault
    refine ⟨{ p with sample_counter := p.sample_counter+1, data := r.2 },?_⟩
    simp only [Profiler.sample,hnew,hcount,bind,Except.bind,hadd]
    rfl

end Sampling

theorem Profiler.Tallied.handler {p : Profiler F} {slack : Nat} (h : p.Tallied slack)
    {at_ : Interrupted F} {fault : Option Nat} {profiler : Except Error (Profiler F)}
    (hh : perf_signal_handler (.ok p) at_ fault = .ok profiler) :
    ∃ p', profiler = .ok p' ∧ p'.running = p.running ∧ p'.Tallied slack := by
  obtain ⟨p',rfl,hrun,-⟩ := handler_keeps hh
  refine ⟨p',rfl,hrun,?_⟩
  unfold perf_signal_handler at hh
  by_cases hb : at_.addr.any p.is_blocklisted
  · simp only [hb,if_true] at hh
    cases hh
    exact h
  · simp only [hb] at hh
    obtain ⟨q,hs,hp⟩ := bind_eq_ok.mp hh
    cases pure_eq_ok.mp hp
    exact h.sampled hs

/-- A session that a guard has, and a profiler that goes on without one: that is where a reset
may have failed. -/
structure World.Bounded (w : World F) : Prop where
  owned : Owned w
  tallied : ∀ p, w.PROFILER = some (.ok p) → p.Tallied (2^31)
  session : ∀ p, w.PROFILER = some (.ok p) → (p.running = true → w.guards ≠ []) → p.Tallied 0

theorem bounded_fresh {w : World F} (h : w.Fresh) : w.Bounded := by
  have hne : ∀ p, w.PROFILER ≠ some (.ok p) := by
    intro p hp
    rw [h.PROFILER] at hp
    cases hp
  exact ⟨.inl h.guards,fun p hp => absurd hp (hne p),fun p hp => absurd hp (hne p)⟩

theorem World.Bounded.trigger {w : World F} (h : w.Bounded) {fails : Bool} {p : Profiler F}
    (ht : trigger_lazy w.PROFILER fails = .ok p) :
    p.Tallied (2^31) ∧ ((p.running = true → w.guards ≠ []) → p.Tallied 0) := by
  cases hq : w.PROFILER with
  | some profiler =>
    rw [hq] at ht
    cases ht
    exact ⟨h.tallied p hq,h.session p hq⟩
  | none =>
    rw [hq] at ht
    cases fails with
    | true => cases ht
    | false =>
      have hnew := (holding_new ht).tallied
      exact ⟨hnew.mono (Nat.zero_le _),fun _ => hnew⟩

theorem bounded_build {w w' : World F} (h : w.Bounded) {b : ProfilerGuardBuilder}
    {faults : BuildFaults} {now : Clock} (hs : w.step (.build b faults now) = some w') :
    w'.Bounded := by
  have howned := owned_step w _ w' h.owned hs
  rcases build_cases b w faults now with ⟨err,-,hb⟩ | ⟨p,ht,⟨hp,hb⟩ | ⟨hp,-,hb⟩ |
    ⟨hp,-,-,hb⟩ | ⟨hp,-,-,timer,hb⟩⟩ <;> simp only [World.step,hb] at hs <;> cases hs
  · exact ⟨howned,by simp,by simp⟩
  all_goals
    obtain ⟨hany,hsession⟩ := h.trigger ht
    refine ⟨howned,fun q hq => ?_,fun q hq hg => ?_⟩ <;> cases hq
    · exact hany.of_data rfl rfl
  · exact (hsession hg).of_data rfl rfl
  all_goals
    exact (hsession (by simp [hp])).of_data rfl rfl

omit [Frame F] [DefaultHasher] in
theorem unregister_data (p : Profiler F) (os : Os) (fails : Bool) :
    (p.unregister_signal_handler os fails).2.1.data = p.data ∧
      (p.unregister_signal_handler os fails).2.1.sample_counter = p.sample_counter := by
  obtain ⟨data,counter,old,running,on_stack,segments⟩ := p
  cases old with
  | none => exact ⟨rfl,rfl⟩
  | some act => cases fails <;> exact ⟨rfl,rfl⟩

theorem Profiler.Tallied.stop {p : Profiler F} (h : p.Tallied 0) (os : Os)
    (faults : StopFaults) :
    (p.stop os faults).2.1.Tallied (2^31) ∧
      ((p.stop os faults).2.1.running = false → (p.stop os faults).2.1.Tallied 0) := by
  cases hr : p.running with
  | false =>
    rw [stop_not_running hr]
    exact ⟨h.mono (Nat.zero_le _),fun _ => h⟩
  | true =>
    have hun := unregister_running p os faults.restore
    obtain ⟨hd,hc⟩ := unregister_data p os faults.restore
    simp only [Profiler.stop,hr,if_true]
    rcases hq : p.unregister_signal_handler os faults.restore with ⟨r,q,os'⟩
    rw [hq] at hun hd hc
    have hq := h.of_data hd hc
    cases r with
    | error err => exact ⟨hq.mono (Nat.zero_le _),fun _ => hq⟩
    | ok u =>
      cases hf : faults.create with
      | false =>
        have hnew := (holding_init (p := q)).tallied
        exact ⟨hnew.mono (Nat.zero_le _),fun _ => hnew⟩
      | true =>
        obtain ⟨⟨samples,hp,hn⟩,h₀,h₁⟩ := hq
        have hzero : (q.init true).2.sample_counter = 0 := rfl
        have hlate : (q.init true).2.Tallied (2^31) :=
          ⟨⟨samples,hp,by rw [hzero]; omega⟩,by rw [hzero],by rw [hzero]; decide⟩
        refine ⟨hlate,fun hstop => ?_⟩
        exact absurd (hstop.symm.trans (hun.trans hr)) (by decide)

theorem bounded_step (w : World F) (op : Op F) (w' : World F) (h : w.Bounded)
    (hs : w.step op = some w') : w'.Bounded := by
  cases op with
  | build b faults now => exact bounded_build h hs
  | drop i faults =>
    have howned := owned_step w _ w' h.owned hs
    obtain ⟨guard,hg,hdrop⟩ := step_drop hs
    obtain ⟨timer,p,act,hone,hp,hrun,-⟩ := h.owned.resolve_left fun hnil => by simp [hnil] at hg
    have hempty : w'.guards = [] := by
      rw [hdrop,drop_guards]
      exact eraseIdx_singleton hone hg
    have ht : p.Tallied 0 := h.session p hp fun _ => by simp [hone]
    rcases drop_profiler guard { w with guards := w.guards.eraseIdx i } faults with
      ⟨q,os,hq,hd⟩ | ⟨hne,-⟩
    · obtain rfl : p = q := by simpa [hp] using hq
      rw [← hdrop] at hd
      refine ⟨howned,fun q hq => ?_,fun q hq hsession => ?_⟩ <;> rw [hd] at hq <;> cases hq
      · exact (ht.stop os faults).1
      · refine (ht.stop os faults).2 ?_
        by_contra hstopped
        exact hsession (Bool.eq_true_of_not_eq_false hstopped) hempty
    · exact absurd hp (hne p)
  | report i =>
    obtain ⟨-,rfl⟩ := step_report hs
    exact h
  | signal at_ fault =>
    have howned := owned_step w _ w' h.owned hs
    obtain ⟨profiler,profiler',hp,-,hh,rfl⟩ := step_signal hs
    cases profiler with
    | error err =>
      cases hh
      exact ⟨howned,by simp,by simp⟩
    | ok p =>
      refine ⟨howned,fun q hq => ?_,fun q hq hg => ?_⟩ <;> cases hq
      · obtain ⟨p',hp',-,ht⟩ := (h.tallied p hp).handler hh
        cases hp'
        exact ht
      · obtain ⟨p',hp',hrun,-⟩ := handler_keeps hh
        cases hp'
        rw [hrun] at hg
        obtain ⟨p'',hp'',-,ht⟩ := (h.session p hp hg).handler hh
        cases hp''
        exact ht
  | sigaction act =>
    cases hs
    exact ⟨owned_step w (.sigaction act) _ h.owned rfl,h.tallied,h.session⟩

end Limits

end Pprof
