import Pprof.Sessions
set_option autoImplicit false

/-! Samples are counted twice: by `sample_counter`, an `i32`, and in the counts of the collector,
which are of type `isize`. -/

namespace Pprof
open Iteration Memory Runs

theorem Sessions.of_prefix {F σ : Type} {on : Bool} {pre ops : List (SessionOp F σ)}
    (h : Sessions on ops) (hp : pre <+: ops) : Sessions on pre := by
  induction pre generalizing on ops with
  | nil => trivial
  | cons op pre ih =>
    cases ops with
    | nil => simp at hp
    | cons op' ops =>
      obtain ⟨rfl,hrest⟩ := List.cons_prefix_cons.mp hp
      cases op <;> exact ⟨h.1,ih h.2 hrest⟩

theorem Countable.of_prefix {F σ : Type} {taken : List (UnresolvedFrames F)}
    {pre ops : List (SessionOp F σ)} (h : Countable taken ops) (hp : pre <+: ops) :
    Countable taken pre := fun pre' hpre' => h pre' (hpre'.trans hp)

section Counter
variable {F σ : Type} [Layout (Entry (UnresolvedFrames F))] [Target] [Frame F] [DefaultHasher]

def Profiler.Accounted (p : Profiler F) : Prop :=
  ∃ it, p.data.try_iter none = .ok it ∧ p.sample_counter = ((collect it).map Entry.count).sum

theorem Holding.accounted {p : Profiler F} {samples : List (UnresolvedFrames F)}
    (h : Holding p samples) : p.Accounted := by
  obtain ⟨it,hit,hsum⟩ := h.counts
  exact ⟨it,hit,h.sample_counter.trans hsum.symm⟩

theorem Holding.sample_overflows {p : Profiler F} {samples : List (UnresolvedFrames F)}
    (h : Holding p samples) (hn : samples.length+1 = 2^31) (x : Sample F) :
    p.sample x.backtrace x.thread_name x.thread_id x.sample_timestamp none =
      .error .overflow := by
  have hcount : addI32 p.sample_counter 1 = .error .overflow := by
    apply if_neg
    rw [h.sample_counter]
    unfold InI32
    omega
  simp only [Profiler.sample,x.new_captured,hcount,bind,Except.bind]

variable [Resolver]

theorem recording_of_run {s s' : Profiler F × Os} {on : Bool} {taken : List (UnresolvedFrames F)}
    (h : Recording s.1 on taken) {ops : List (SessionOp F σ)} (hs : Sessions on ops)
    (hr : run sessionStep s ops = some s') :
    ∃ on', Recording s'.1 on' (recorded taken ops) := by
  induction ops generalizing s on taken with
  | nil =>
    cases hr
    exact ⟨on,h⟩
  | cons op ops ih =>
    obtain ⟨t,ht,hrest⟩ := run_cons_eq_some hr
    obtain ⟨on',hs',ht'⟩ := recording_step h hs ht
    rw [recorded_cons]
    exact ih ht' hs' hrest

/-- With all I/O succeeding, sessions go on without a panic and with the counter right after
every operation exactly as long as none of them takes `2^31` samples. -/
theorem samples_accounted_iff {p₀ : Profiler F} (hnew : Profiler.new false = .ok p₀) (os : Os)
    {ops : List (SessionOp F σ)} (hs : Sessions false ops) :
    (∀ pre, pre <+: ops → ∃ p os', run sessionStep (p₀,os) pre = some (p,os') ∧ p.Accounted) ↔
      Countable [] ops := by
  constructor
  · intro h pre hp
    obtain ⟨p,os',hrun,-⟩ := h pre hp
    obtain ⟨on,hrec⟩ := recording_of_run (recording_new hnew) (hs.of_prefix hp) hrun
    exact hrec.fits
  · intro hn pre hp
    obtain ⟨⟨p,os'⟩,on,hrun,hrec⟩ := recording_run (s := (p₀,os)) (recording_new hnew)
      (hs.of_prefix hp) (hn.of_prefix hp)
    exact ⟨p,os',hrun,hrec.accounted⟩

theorem session_overflows {p₀ : Profiler F} (hnew : Profiler.new false = .ok p₀) (os : Os)
    {xs : List (Sample F)} (hlen : xs.length+1 = 2^31) (x : Sample F) :
    ∃ p os', run (sessionStep (σ := σ)) (p₀,os) (.start :: xs.map .sample) = some (p,os') ∧
      p.sample x.backtrace x.thread_name x.thread_id x.sample_timestamp none =
        .error .overflow := by
  obtain ⟨p₁,os₁,hstart,-,h₁⟩ := recording_start (recording_new hnew) os
  have hroom : ([] : List (UnresolvedFrames F)).length+xs.length < 2^31 := by
    rw [List.length_nil]
    omega
  obtain ⟨⟨p,os'⟩,hrun,-,hp⟩ := samples_added (σ := σ) (s := (p₁,os₁)) h₁ hroom
  have hstep : sessionStep (σ := σ) (p₀,os) .start = some (p₁,os₁) := by
    simp only [sessionStep,hstart]
  refine ⟨p,os',by rw [run_cons_some hstep,hrun],hp.sample_overflows ?_ x⟩
  rw [List.nil_append,List.length_map,hlen]

end Counter

theorem samples_accounted_iff_plain :
    letI := plainTarget
    letI := plainHasher
    letI := plainResolver
    letI := plainLayout
    ∃ (p₀ p : Profiler PlainFrame) (os : Os), Profiler.new false = .ok p₀ ∧
      run (sessionStep (σ := Unit)) (p₀,plainOs)
        [.start,.sample (plainSample 1 0 [97]),.stop,.start,.sample (plainSample 2 0 [98])] =
          some (p,os) ∧
      p.Accounted := by
  let _ := plainTarget
  let _ := plainHasher
  let _ := plainResolver
  let _ := plainLayout
  obtain ⟨p₀,hnew⟩ := profiler_new (F := PlainFrame)
  have hs : Sessions false ([.start,.sample (plainSample 1 0 [97]),.stop,.start,
      .sample (plainSample 2 0 [98])] : List (SessionOp PlainFrame Unit)) := by simp [Sessions]
  obtain ⟨p,os,hrun,hp⟩ := (samples_accounted_iff hnew plainOs hs).mpr
    (countable_of_length (by simp)) _ (List.prefix_refl _)
  exact ⟨p₀,p,os,hnew,hrun,hp⟩

/-- The sample with number `2^31` of a session panics in the handler. -/
theorem long_session_overflows :
    letI := plainTarget
    letI := plainHasher
    letI := plainResolver
    letI := plainLayout
    ∃ (p₀ p : Profiler PlainFrame) (os : Os), Profiler.new false = .ok p₀ ∧
      run (sessionStep (σ := Unit)) (p₀,plainOs)
        (.start :: (List.replicate (2^31-1) (plainSample 1 0 [97])).map .sample) = some (p,os) ∧
      p.sample (plainSample 1 0 [97]).backtrace (plainSample 1 0 [97]).thread_name 1 ⟨0,0⟩ none =
        .error .overflow := by
  let _ := plainTarget
  let _ := plainHasher
  let _ := plainResolver
  let _ := plainLayout
  obtain ⟨p₀,hnew⟩ := profiler_new (F := PlainFrame)
  have hlen : (List.replicate (2^31-1) (plainSample 1 0 [97])).length+1 = 2^31 := by
    rw [List.length_replicate]
    omega
  obtain ⟨p,os,hrun,hp⟩ := session_overflows (σ := Unit) hnew plainOs hlen (plainSample 1 0 [97])
  exact ⟨p₀,p,os,hnew,hrun,hp⟩

end Pprof
