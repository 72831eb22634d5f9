import Pprof.ReportCounts
set_option autoImplicit false

/-! Whole profiling sessions: what a report says about the samples of the session it is
built in, however many sessions, samples and reports came before. -/

namespace Pprof
open Assoc FormalSum Iteration Ledger Memory Runs TempFile

section Sampling
variable {F : Type}

structure Sample (F : Type) where
  backtrace : List F
  thread_name : List UInt8
  thread_id : UInt64
  sample_timestamp : SystemTime
  thread_name_le : thread_name.length ≤ MAX_THREAD_NAME

def Sample.captured (s : Sample F) : UnresolvedFrames F :=
  .named s.backtrace s.thread_name s.thread_id s.sample_timestamp s.thread_name_le

theorem Sample.new_captured (s : Sample F) :
    UnresolvedFrames.new s.backtrace s.thread_name s.thread_id s.sample_timestamp =
      .ok s.captured := dif_pos s.thread_name_le

inductive SessionOp (F σ : Type) where
  | start
  | sample (s : Sample F)
  | build_unresolved
  | build (processor : Option (Frames → σ → Frames × σ)) (s : σ)
  | stop

variable {σ : Type}

/-- Sessions one after the other, the last of which may still be running. The flag says
whether one is running at the beginning. -/
def Sessions : Bool → List (SessionOp F σ) → Prop
  | _, [] => True
  | running, .start :: ops => running = false ∧ Sessions true ops
  | running, .stop :: ops => running = true ∧ Sessions false ops
  | running, .sample _ :: ops => running = true ∧ Sessions true ops
  | running, .build_unresolved :: ops => running = true ∧ Sessions true ops
  | running, .build .. :: ops => running = true ∧ Sessions true ops

/-- The samples of the session that is running after the operations, with `taken` the
samples it has at the beginning. -/
def recorded (taken : List (UnresolvedFrames F)) : List (SessionOp F σ) → List (UnresolvedFrames F)
  | [] => taken
  | .start :: ops => recorded [] ops
  | .stop :: ops => recorded [] ops
  | .sample s :: ops => recorded (taken ++ [s.captured]) ops
  | .build_unresolved :: ops => recorded taken ops
  | .build .. :: ops => recorded taken ops

theorem recorded_cons (taken : List (UnresolvedFrames F)) (op : SessionOp F σ)
    (ops : List (SessionOp F σ)) :
    recorded taken (op :: ops) = recorded (recorded taken [op]) ops := by
  cases op <;> rfl

def Countable (taken : List (UnresolvedFrames F)) (ops : List (SessionOp F σ)) : Prop :=
  ∀ pre, pre <+: ops → (recorded taken pre).length < 2^31

theorem Countable.tail {taken taken' : List (UnresolvedFrames F)} {op : SessionOp F σ}
    {ops : List (SessionOp F σ)} (h : Countable taken (op :: ops))
    (hr : ∀ pre, recorded taken (op :: pre) = recorded taken' pre) : Countable taken' ops := by
  intro pre hpre
  rw [← hr pre]
  exact h (op :: pre) (List.cons_prefix_cons.mpr ⟨rfl,hpre⟩)

theorem recorded_length_le (taken : List (UnresolvedFrames F)) (ops : List (SessionOp F σ)) :
    (recorded taken ops).length ≤ taken.length+ops.length := by
  induction ops generalizing taken with
  | nil => simp [recorded]
  | cons op ops ih =>
    cases op with
    | start | stop =>
      have hi := ih []
      simp only [recorded,List.length_cons,List.length_nil] at hi ⊢
      omega
    | sample s =>
      have hi := ih (taken ++ [s.captured])
      simp only [recorded,List.length_append,List.length_cons,List.length_nil] at hi ⊢
      omega
    | build_unresolved | build =>
      have hi := ih taken
      simp only [recorded,List.length_cons] at hi ⊢
      omega

theorem countable_of_length {taken : List (UnresolvedFrames F)} {ops : List (SessionOp F σ)}
    (h : taken.length+ops.length < 2^31) : Countable taken ops := by
  intro pre hpre
  have hr := recorded_length_le taken pre
  have hl := hpre.length_le
  omega

def history (samples : List (UnresolvedFrames F)) : List (UnresolvedFrames F × ℤ) :=
  samples.map fun u => (u,1)

theorem history_snoc (samples : List (UnresolvedFrames F)) (u : UnresolvedFrames F) :
    history samples ++ [(u,1)] = history (samples ++ [u]) := by simp [history]

theorem history_keys (samples : List (UnresolvedFrames F)) :
    (history samples).map Prod.fst = samples := by
  rw [history,List.map_map]
  exact List.map_id samples

theorem history_pos (samples : List (UnresolvedFrames F)) : ∀ a ∈ history samples, 0 < a.2 := by
  intro a ha
  obtain ⟨u,-,rfl⟩ := List.mem_map.mp ha
  exact Int.one_pos

theorem history_sum (samples : List (UnresolvedFrames F)) :
    ((history samples).map Prod.snd).sum = samples.length := by
  induction samples with
  | nil => rfl
  | cons u samples ih =>
    simp only [history,List.map_cons,List.sum_cons,List.length_cons] at ih ⊢
    omega

theorem history_total (samples : List (UnresolvedFrames F)) (p : UnresolvedFrames F → Bool) :
    total p (history samples) = samples.countP p := by
  induction samples with
  | nil => rfl
  | cons u samples ih =>
    simp only [history,List.map_cons,total_cons,List.countP_cons] at ih ⊢
    split <;> simp_all
    omega

end Sampling

section Reporting
variable {F σ : Type} [Layout (Entry (UnresolvedFrames F))] [Target] [Frame F] [DefaultHasher]

def reportBuilder (p : Profiler F) (processor : Option (Frames → σ → Frames × σ)) :
    ReportBuilder F σ := ⟨processor,.ok p,ReportTiming.default⟩

structure Holding (p : Profiler F) (samples : List (UnresolvedFrames F)) : Prop where
  data : p.data.Records (history samples)
  sample_counter : p.sample_counter = samples.length
  fits : samples.length < 2^31

theorem Holding.sum_fits {p : Profiler F} {samples : List (UnresolvedFrames F)}
    (h : Holding p samples) : ((history samples).map Prod.snd).sum < 2^63 := by
  rw [history_sum]
  have hn := h.fits
  omega

structure Recording (p : Profiler F) (on : Bool) (samples : List (UnresolvedFrames F)) : Prop
    extends Holding p samples where
  running : p.running = on
  old_sigaction : on = true → ∃ act, p.old_sigaction = some act
  idle : on = false → samples = []

theorem holding_new {p : Profiler F} (h : Profiler.new false = .ok p) : Holding p [] := by
  obtain ⟨data,hd,hr⟩ := collector_new (T := UnresolvedFrames F)
  simp only [Profiler.new,hd] at h
  cases h
  exact ⟨hr,rfl,by simp⟩

theorem holding_init {p : Profiler F} : Holding (p.init false).2 [] := by
  obtain ⟨data,hd,hr⟩ := collector_new (T := UnresolvedFrames F)
  simp only [Profiler.init,hd]
  exact ⟨hr,rfl,by simp⟩

theorem recording_new {p : Profiler F} (h : Profiler.new false = .ok p) : Recording p false [] := by
  have hh := holding_new h
  cases h
  exact ⟨hh,rfl,nofun,fun _ => rfl⟩

theorem Holding.sample {p p' : Profiler F} {samples : List (UnresolvedFrames F)}
    (h : Holding p samples) {backtrace : List F} {thread_name : List UInt8} {thread_id : UInt64}
    {sample_timestamp : SystemTime} {u : UnresolvedFrames F}
    (hu : UnresolvedFrames.new backtrace thread_name thread_id sample_timestamp = .ok u)
    (hs : p.sample backtrace thread_name thread_id sample_timestamp none = .ok p') :
    Holding p' (samples ++ [u]) ∧ p'.running = p.running ∧
      p'.old_sigaction = p.old_sigaction := by
  obtain ⟨v,hv,hs⟩ := bind_eq_ok.mp hs
  rw [hu] at hv
  cases hv
  obtain ⟨n,hn,hs⟩ := bind_eq_ok.mp hs
  obtain ⟨⟨r,data⟩,hadd,hs⟩ := bind_eq_ok.mp hs
  obtain rfl := pure_eq_ok.mp hs
  have hrange : InI32 (p.sample_counter+1) := by
    by_contra hc
    rw [addI32,if_neg hc] at hn
    cases hn
  rw [addI32,if_pos hrange,h.sample_counter] at hn
  cases hn
  rw [h.sample_counter] at hrange
  have hdata := h.data.add_none hadd
  rw [history_snoc] at hdata
  refine ⟨⟨hdata,by simp,?_⟩,rfl,rfl⟩
  simp only [InI32,List.length_append,List.length_singleton] at hrange ⊢
  omega

theorem Holding.sample_total {p : Profiler F} {samples : List (UnresolvedFrames F)}
    (h : Holding p samples) (x : Sample F) (hn : samples.length+1 < 2^31) :
    ∃ p', p.sample x.backtrace x.thread_name x.thread_id x.sample_timestamp none = .ok p' ∧
      p.data.add x.captured 1 none = .ok (.ok (),p'.data) := by
  have hr : SumsInRange (history samples ++ [(x.captured,1)]) := by
    rw [history_snoc]
    apply sumsInRange_of_nonneg
    · intro a ha
      exact Int.le_of_lt (history_pos _ a ha)
    · rw [history_sum]
      simp only [List.length_append,List.length_singleton]
      omega
  obtain ⟨data,hadd,-⟩ := h.data.add_total hr
  have hnew := x.new_captured
  have hcount : addI32 p.sample_counter 1 = .ok (p.sample_counter+1) := by
    apply if_pos
    rw [h.sample_counter]
    unfold InI32
    omega
  refine ⟨{ p with sample_counter := p.sample_counter+1, data },?_,hadd⟩
  simp only [Profiler.sample,hnew,hcount,bind,Except.bind,hadd]
  rfl

theorem recording_sampled {p p' : Profiler F} {samples : List (UnresolvedFrames F)}
    (h : Recording p true samples) (x : Sample F)
    (hs : p.sample x.backtrace x.thread_name x.thread_id x.sample_timestamp none = .ok p') :
    Recording p' true (samples ++ [x.captured]) := by
  obtain ⟨hh,hrun,hold⟩ := h.toHolding.sample x.new_captured hs
  refine ⟨hh,hrun.trans h.running,fun hon => ?_,nofun⟩
  rw [hold]
  exact h.old_sigaction hon

theorem recording_sample {p : Profiler F} {samples : List (UnresolvedFrames F)}
    (h : Recording p true samples) (x : Sample F) (hn : samples.length+1 < 2^31) :
    ∃ p', p.sample x.backtrace x.thread_name x.thread_id x.sample_timestamp none = .ok p' ∧
      p.data.add x.captured 1 none = .ok (.ok (),p'.data) ∧
      Recording p' true (samples ++ [x.captured]) := by
  obtain ⟨p',hs,hadd⟩ := h.sample_total x hn
  exact ⟨p',hs,hadd,recording_sampled h x hs⟩

theorem recording_start {p : Profiler F} {samples : List (UnresolvedFrames F)}
    (h : Recording p false samples) (os : Os) :
    ∃ p' os', p.start os false = (.ok (),p',os') ∧ p'.data = p.data ∧ Recording p' true [] := by
  obtain rfl := h.idle rfl
  exact ⟨_,_,start_ok h.running os,rfl,⟨h.data,h.sample_counter,h.fits⟩,rfl,fun _ => ⟨_,rfl⟩,nofun⟩

theorem recording_stop {p : Profiler F} {samples : List (UnresolvedFrames F)}
    (h : Recording p true samples) (os : Os) :
    ∃ p' os', p.stop os ⟨false,false⟩ = (.ok (),p',os') ∧ Recording p' false [] := by
  obtain ⟨act,ha⟩ := h.old_sigaction rfl
  obtain ⟨data,hd,hr⟩ := collector_new (T := UnresolvedFrames F)
  exact ⟨_,_,stop_ok h.running ha os hd,⟨hr,rfl,by simp⟩,rfl,nofun,fun _ => rfl⟩

theorem Holding.unresolved {p : Profiler F} {samples : List (UnresolvedFrames F)}
    (h : Holding p samples) {b : ReportBuilder F σ} (hb : b.profiler = .ok p) :
    ∃ r, b.build_unresolved none = .ok (.ok r) ∧
      ∀ k, r.data.get k =
        if samples.countP (· == k) = 0 then none else some (samples.countP (· == k) : ℤ) := by
  obtain ⟨r,es,hr,hes,ht⟩ := build_unresolved_ok hb h.data
    (history_pos samples) h.sum_fits
  refine ⟨r,hr,fun k => ?_⟩
  have htotal : total (· == k) r.data.entries = samples.countP (· == k) := by
    rw [ht.total_eq,hes.total_eq fun a b hab => BEq.congr_left (sameSlot_beq hab),history_total]
  cases hg : r.data.get k with
  | none =>
    have hz := total_of_get_none hg
    rw [htotal] at hz
    rw [if_pos (by omega)]
  | some v =>
    obtain ⟨e,he,hk,rfl⟩ := get_eq_some_mem hg
    have hpos := ht.pos (fun a => BEq.rfl)
      (fun a ha => hes.pos sameSlot_refl (history_pos samples) a ha) e he
    have hv := total_of_get_some hg
    rw [htotal] at hv
    rw [if_neg (by omega),hv]

theorem Holding.counts {p : Profiler F} {samples : List (UnresolvedFrames F)}
    (h : Holding p samples) : ∃ it, p.data.try_iter none = .ok it ∧
      ((collect it).map Entry.count).sum = samples.length := by
  obtain ⟨it,hit,hbal⟩ := h.data.try_iter
  have hw : weigh (fun _ => 1) ((collect it).map Entry.pair) =
      weigh (fun _ => 1) (history samples) := hbal.weigh_eq fun _ _ _ _ _ => rfl
  rw [← sum_counts,← sum_counts,history_sum,List.map_map] at hw
  exact ⟨it,hit,hw⟩

theorem Holding.not_empty {p : Profiler F} {samples : List (UnresolvedFrames F)}
    (h : Holding p samples) (hne : samples ≠ []) : ¬ p.data.Empty := by
  rintro ⟨it,hit,hnil⟩
  obtain ⟨it',hit',hsum⟩ := h.counts
  rw [hit] at hit'
  cases hit'
  have hcounts : (collect it).map Entry.count = ((collect it).map Entry.pair).map Prod.snd := by
    rw [List.map_map]
    rfl
  rw [hcounts,hnil] at hsum
  have hlen : samples.length = 0 := by simpa using hsum.symm
  exact hne (List.length_eq_zero_iff.mp hlen)

variable [Resolver]

theorem Holding.build {p : Profiler F} {samples : List (UnresolvedFrames F)}
    (h : Holding p samples) {b : ReportBuilder F σ} (hb : b.profiler = .ok p) (s : σ) :
    ∃ r, b.build s none = .ok (.ok r) ∧
      (∀ e ∈ r.data.entries, 0 < e.2) ∧ (r.data.entries.map Prod.snd).sum = samples.length := by
  obtain ⟨r,it,hr,-,-,ht,hpos,hs⟩ := build_ok hb h.data
    (history_pos samples) h.sum_fits s
  have hcounts := processed_counts b.frames_post_processor (collect it) s
  refine ⟨r,hr,ht.pos (fun a => BEq.rfl) (processed_pos _ hpos s),?_⟩
  rw [sum_counts,ht.weigh_eq fun _ _ _ _ _ => rfl,← sum_counts]
  rw [hcounts,hs,history_sum]

/-- One operation with all I/O succeeding. There is no next state after an error or a panic. -/
def sessionStep (s : Profiler F × Os) : SessionOp F σ → Option (Profiler F × Os)
  | .start =>
    match s.1.start s.2 false with
    | (.ok (),p,os) => some (p,os)
    | _ => none
  | .sample x =>
    match s.1.sample x.backtrace x.thread_name x.thread_id x.sample_timestamp none with
    | .ok p => some (p,s.2)
    | .error _ => none
  | .build_unresolved =>
    match (reportBuilder (σ := σ) s.1 none).build_unresolved none with
    | .ok (.ok _) => some s
    | _ => none
  | .build processor x =>
    match (reportBuilder s.1 processor).build x none with
    | .ok (.ok _) => some s
    | _ => none
  | .stop =>
    match s.1.stop s.2 ⟨false,false⟩ with
    | (.ok (),p,os) => some (p,os)
    | _ => none

theorem samples_added {s : Profiler F × Os} {taken : List (UnresolvedFrames F)}
    (h : Recording s.1 true taken) {xs : List (Sample F)} (hlen : taken.length+xs.length < 2^31) :
    ∃ s', run (sessionStep (σ := σ)) s (xs.map .sample) = some s' ∧
      run Collector.step s.1.data (xs.map fun x => .add x.captured 1) = some s'.1.data ∧
      Recording s'.1 true (taken ++ xs.map Sample.captured) := by
  induction xs generalizing s taken with
  | nil => exact ⟨s,rfl,rfl,by simpa using h⟩
  | cons x xs ih =>
    simp only [List.length_cons] at hlen
    obtain ⟨p,hsample,hadd,h₁⟩ := recording_sample h x (by omega)
    have hstep : sessionStep (σ := σ) s (.sample x) = some (p,s.2) := by
      simp only [sessionStep,hsample]
    have hcollect : s.1.data.step (.add x.captured 1) = some p.data := by
      simp only [Collector.step,hadd]
    obtain ⟨s',hrun,hdata,h'⟩ := ih (s := (p,s.2)) h₁ (by
      simp only [List.length_append,List.length_singleton]
      omega)
    refine ⟨s',?_,?_,by simpa using h'⟩
    · rw [List.map_cons,run_cons_some hstep,hrun]
    · rw [List.map_cons,run_cons_some hcollect,hdata]

theorem recording_step {s s' : Profiler F × Os} {on : Bool} {taken : List (UnresolvedFrames F)}
    (h : Recording s.1 on taken) {op : SessionOp F σ} {ops : List (SessionOp F σ)}
    (hs : Sessions on (op :: ops)) (hstep : sessionStep s op = some s') :
    ∃ on', Sessions on' ops ∧ Recording s'.1 on' (recorded taken [op]) := by
  cases op with
  | start =>
    obtain ⟨rfl,hs⟩ := hs
    obtain ⟨p,os,hstart,-,h₁⟩ := recording_start h s.2
    simp only [sessionStep,hstart,Option.some.injEq] at hstep
    subst hstep
    exact ⟨true,hs,h₁⟩
  | sample x =>
    obtain ⟨rfl,hs⟩ := hs
    simp only [sessionStep] at hstep
    split at hstep
    · rename_i p hsample
      cases hstep
      exact ⟨true,hs,recording_sampled h x hsample⟩
    · cases hstep
  | build_unresolved =>
    obtain ⟨rfl,hs⟩ := hs
    simp only [sessionStep] at hstep
    split at hstep <;> cases hstep
    exact ⟨true,hs,h⟩
  | build processor x =>
    obtain ⟨rfl,hs⟩ := hs
    simp only [sessionStep] at hstep
    split at hstep <;> cases hstep
    exact ⟨true,hs,h⟩
  | stop =>
    obtain ⟨rfl,hs⟩ := hs
    obtain ⟨p,os,hstop,h₁⟩ := recording_stop h s.2
    simp only [sessionStep,hstop,Option.some.injEq] at hstep
    subst hstep
    exact ⟨false,hs,h₁⟩

theorem sessionStep_total {s : Profiler F × Os} {on : Bool} {taken : List (UnresolvedFrames F)}
    (h : Recording s.1 on taken) {op : SessionOp F σ} {ops : List (SessionOp F σ)}
    (hs : Sessions on (op :: ops)) (hn : (recorded taken [op]).length < 2^31) :
    ∃ s', sessionStep s op = some s' := by
  cases op with
  | start =>
    obtain ⟨rfl,-⟩ := hs
    obtain ⟨p,os,hstart,-⟩ := recording_start h s.2
    exact ⟨(p,os),by simp only [sessionStep,hstart]⟩
  | sample x =>
    simp only [recorded,List.length_append,List.length_singleton] at hn
    obtain ⟨p,hsample,-⟩ := h.sample_total x hn
    exact ⟨(p,s.2),by simp only [sessionStep,hsample]⟩
  | build_unresolved =>
    obtain ⟨r,hr,-⟩ := h.unresolved (b := reportBuilder (σ := σ) s.1 none) rfl
    exact ⟨s,by simp only [sessionStep,hr]⟩
  | build processor x =>
    obtain ⟨r,hr,-⟩ := h.build (b := reportBuilder s.1 processor) rfl x
    exact ⟨s,by simp only [sessionStep,hr]⟩
  | stop =>
    obtain ⟨rfl,-⟩ := hs
    obtain ⟨p,os,hstop,-⟩ := recording_stop h s.2
    exact ⟨(p,os),by simp only [sessionStep,hstop]⟩

theorem recording_run {s : Profiler F × Os} {on : Bool} {taken : List (UnresolvedFrames F)}
    (h : Recording s.1 on taken) {ops : List (SessionOp F σ)} (hs : Sessions on ops)
    (hn : Countable taken ops) :
    ∃ s' on', run sessionStep s ops = some s' ∧ Recording s'.1 on' (recorded taken ops) := by
  induction ops generalizing s on taken with
  | nil => exact ⟨s,on,rfl,h⟩
  | cons op ops ih =>
    obtain ⟨t,ht⟩ := sessionStep_total h hs (hn [op] (by simp))
    obtain ⟨on',hs',h'⟩ := recording_step h hs ht
    rw [run_cons_some ht,recorded_cons]
    exact ih h' hs' (hn.tail fun pre => recorded_cons taken op pre)

/-- In every session the two reports count the samples taken since its start: the first
by class, the second under whatever keys the post-processor makes of them. -/
theorem reports_count_samples {p₀ : Profiler F} (hnew : Profiler.new false = .ok p₀) (os : Os)
    {ops : List (SessionOp F σ)} (hs : Sessions false ops) (hn : Countable [] ops) :
    ∃ p os', run sessionStep (p₀,os) ops = some (p,os') ∧
      (∃ r, (reportBuilder (σ := σ) p none).build_unresolved none = .ok (.ok r) ∧
        ∀ k, r.data.get k = if (recorded [] ops).countP (· == k) = 0 then none
          else some ((recorded [] ops).countP (· == k) : ℤ)) ∧
      ∀ (processor : Option (Frames → σ → Frames × σ)) (s : σ),
        ∃ r, (reportBuilder p processor).build s none = .ok (.ok r) ∧
          (∀ e ∈ r.data.entries, 0 < e.2) ∧
          (r.data.entries.map Prod.snd).sum = (recorded [] ops).length := by
  obtain ⟨⟨p,os'⟩,on,hrun,h⟩ := recording_run (s := (p₀,os)) (recording_new hnew) hs hn
  exact ⟨p,os',hrun,h.unresolved rfl,fun processor s => h.build rfl s⟩

end Reporting

def plainSample (ip symbol_address : UInt64) (name : List UInt8) : Sample PlainFrame where
  backtrace := [⟨ip,symbol_address,[⟨some name,none,none,none⟩]⟩]
  thread_name := [109,97,105,110]
  thread_id := 1
  sample_timestamp := ⟨0,0⟩
  thread_name_le := by decide

theorem reports_count_samples_plain :
    letI := plainTarget
    letI := plainHasher
    letI := plainResolver
    letI := plainLayout
    ∃ (p₀ p : Profiler PlainFrame) (os os' : Os) (r : Report), Profiler.new false = .ok p₀ ∧
      run (sessionStep (σ := Unit)) (p₀,os)
        [.start,.sample (plainSample 1 0 [97]),.build none (),.sample (plainSample 2 0 [98])] =
          some (p,os') ∧
      (reportBuilder p none).build () none = .ok (.ok r) ∧
      (r.data.entries.map Prod.snd).sum = 2 := by
  let _ := plainTarget
  let _ := plainHasher
  let _ := plainResolver
  let _ := plainLayout
  obtain ⟨p₀,hnew⟩ := profiler_new (F := PlainFrame)
  have hs : Sessions false ([.start,.sample (plainSample 1 0 [97]),.build none (),
      .sample (plainSample 2 0 [98])] : List (SessionOp PlainFrame Unit)) := by simp [Sessions]
  obtain ⟨p,os',hrun,-,hbuild⟩ := reports_count_samples hnew plainOs hs
    (countable_of_length (by simp))
  obtain ⟨r,hr,-,hsum⟩ := hbuild none ()
  exact ⟨p₀,p,plainOs,os',r,hnew,hrun,hr,hsum⟩

end Pprof
