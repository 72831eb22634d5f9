import Pprof.LifeCycle
import Pprof.ProfileDecoding
set_option autoImplicit false

/-! The sampling period, which is derived from the frequency three times: in microseconds for
the timer, in nanoseconds for the profile, and once for each stack as its share of CPU time. -/

namespace Pprof
open Assoc Memory Protos TempFile

theorem scaled_quotient {c f : Int} (hc : 0 < c) (hf : 0 < f) (n : Int) :
    c*(n/f) ≤ c*n/f ∧ c*n/f < c*(n/f)+c := by
  constructor
  · refine (Int.le_ediv_iff_mul_le hf).mpr ?_
    rw [Int.mul_assoc]
    exact Int.mul_le_mul_of_nonneg_left (Int.ediv_mul_le n (Int.ne_of_gt hf)) (Int.le_of_lt hc)
  · refine Int.ediv_lt_of_lt_mul hf ?_
    have hn : n < (n/f+1)*f := Int.lt_ediv_add_one_mul_self n hf
    have hscaled : c*n < c*((n/f+1)*f) := Int.mul_lt_mul_of_pos_left hn hc
    rwa [← Int.mul_assoc,Int.mul_add,Int.mul_one] at hscaled

section CpuTime
variable [Resolver] {r : Report}

/-- The second value is the share of CPU time, which differs from the count in periods by less
than a nanosecond a sample. -/
def CpuExact (timing : ReportTiming) (count : Int) (sample : Protos.Sample) : Prop :=
  let period := 1000000000/timing.frequency.toInt
  ∃ nanos, sample.value = [count,nanos] ∧ nanos = count*1000000000/timing.frequency.toInt ∧
    count*period ≤ nanos ∧ nanos < count*period+count

omit [Resolver] in
theorem cpuExact_of_value {timing : ReportTiming} (hf : 0 < timing.frequency.toInt) {count : Int}
    (hc : 0 < count) {sample : Protos.Sample}
    (h : sample.value = [count,Int.tdiv (count*1000000000) timing.frequency.toInt]) :
    CpuExact timing count sample := by
  have hdiv : Int.tdiv (count*1000000000) timing.frequency.toInt =
      count*1000000000/timing.frequency.toInt := Int.tdiv_eq_ediv_of_nonneg (by omega)
  obtain ⟨hlow,hhigh⟩ := scaled_quotient hc hf 1000000000
  rw [hdiv] at h
  exact ⟨_,h,rfl,hlow,hhigh⟩

theorem sample_exact_iff (o : Iterated r) (hf : 0 < r.timing.frequency.toInt) {e : Frames × Int}
    (he : e ∈ r.data.entries) (hc : 0 < e.2) (locs : List Nat) :
    (∃ sample, sampleOf (indexed (str_tbl o)) r.timing e.1 e.2 locs = .ok sample ∧
        CpuExact r.timing e.2 sample) ↔ e.2*1000000000 < 2^63 := by
  constructor
  · rintro ⟨sample,hsample,-⟩
    exact (sampleOf_fits hsample).2
  · intro hlt
    have hfit : InI64 (e.2*1000000000) := ⟨by omega,hlt⟩
    have hk := stacks_known o (o.iter_perm.mem_iff.mpr he)
    exact ⟨_,sampleOf_ok (constant_known o (by simp)) hk hfit (by omega) locs,
      cpuExact_of_value hf hc rfl⟩

/-- The CPU time of a stack is computed, and is what it should be, just if the product with
the billion is in `i64` as well, and so are those of all stacks at once. -/
theorem cpu_time_exact_iff (o : Iterated r) (hf : 0 < r.timing.frequency.toInt) :
    (∀ e ∈ r.data.entries, 0 < e.2 → ∀ locs,
      ((∃ sample, sampleOf (indexed (str_tbl o)) r.timing e.1 e.2 locs = .ok sample ∧
        CpuExact r.timing e.2 sample) ↔ e.2*1000000000 < 2^63)) ∧
    ((∀ e ∈ r.data.entries, 0 < e.2) →
      ((∃ p, r.pprof o = .ok p ∧ p.period = 1000000000/r.timing.frequency.toInt ∧
        o.iter.Forall₂ (fun e sample => CpuExact r.timing e.2 sample) p.sample) ↔
          ∀ e ∈ r.data.entries, e.2*1000000000 < 2^63)) := by
  refine ⟨fun e he hc locs => sample_exact_iff o hf he hc locs,fun hpos => ?_⟩
  constructor
  · rintro ⟨p,hp,-⟩ e he
    exact ((representable_of_ok hp).nanos e he).2
  · intro hlt
    have hne : r.timing.frequency ≠ 0 := frequency_ne_zero hf
    have hrep : Representable r := by
      refine ⟨hne,fun e he => ⟨?_,hlt e he⟩⟩
      have hc := hpos e he
      omega
    refine ⟨_,pprof_eq hrep o,Int.tdiv_eq_ediv_of_nonneg (by decide),?_⟩
    change o.iter.Forall₂ _ (o.iter.map (protoSample (indexed (str_tbl o)) r.timing o.firsts))
    rw [List.forall₂_map_right_iff,List.forall₂_same]
    exact fun e he => cpuExact_of_value hf (hpos e (o.iter_perm.mem_iff.mp he)) rfl

theorem period_eq {o : Iterated r} {p : Profile} (h : r.pprof o = .ok p) :
    p.period = Int.tdiv 1000000000 r.timing.frequency.toInt := by
  rw [pprof_eq (representable_of_ok h) o] at h
  cases h
  rfl

end CpuTime

theorem cpu_time_exact_iff_recursive :
    letI := plainResolver
    ∃ p, recursiveReport.pprof (.inOrder recursiveReport) = .ok p ∧ p.period = 1000000000/99 ∧
      recursiveReport.data.entries.Forall₂
        (fun e sample => CpuExact recursiveReport.timing e.2 sample) p.sample := by
  let _ := plainResolver
  have hpos : ∀ e ∈ recursiveReport.data.entries, 0 < e.2 := by simp [recursiveReport]
  have hlt : ∀ e ∈ recursiveReport.data.entries, e.2*1000000000 < 2^63 := by
    simp [recursiveReport]
  exact ((cpu_time_exact_iff (.inOrder recursiveReport) (by decide)).2 hpos).mpr hlt

def longReport : Report :=
  ⟨⟨[(recursiveStack,9223372037)],List.pairwise_singleton ..⟩,⟨100,⟨0,0⟩,0⟩⟩

theorem cpu_time_overflows :
    letI := plainResolver
    InI64 (9223372037*1000000000/100) ∧ longReport.timing.frequency.toInt = 100 ∧
      (recursiveStack,9223372037) ∈ longReport.data.entries ∧
      ∀ (o : Iterated longReport) p, longReport.pprof o ≠ .ok p := by
  let _ := plainResolver
  refine ⟨by decide,rfl,List.mem_singleton_self _,fun o p hp => ?_⟩
  have hfit : InI64 (9223372037*1000000000) :=
    (representable_of_ok hp).nanos _ (List.mem_singleton_self _)
  exact absurd hfit (by decide)

def Timeval.nanos (t : Timeval) : Int := (t.tv_sec*1000000+t.tv_usec)*1000

theorem interval_nanos {frequency : Int32} (h : 0 < frequency.toInt) :
    (interval frequency).nanos = 1000*(1000000/frequency.toInt) := by
  simp only [interval_eq h,Timeval.nanos]
  omega

section Timers
variable {F : Type} [Layout (Entry (UnresolvedFrames F))] [Target]

theorem build_timer {b : ProfilerGuardBuilder} {w w' : World F} {faults : BuildFaults}
    {now : Clock} {guard : ProfilerGuard} (h : b.build w faults now = (.ok (.ok guard),w')) :
    ∃ timer, guard = ⟨some timer⟩ ∧ timer.frequency = b.frequency ∧
      ∃ os : Os, w'.os = os.setitimer ⟨interval b.frequency,interval b.frequency⟩ := by
  unfold ProfilerGuardBuilder.build at h
  split at h
  · cases h
  · split at h
    · cases h
    · split at h
      · rename_i os _ _ timer os' ht
        cases h
        unfold Timer.new at ht
        split at ht
        · cases ht
        · cases ht
          exact ⟨_,rfl,rfl,os,rfl⟩
      · cases h

variable [Frame F] [Resolver]

def ProfilerGuard.Makes (F : Type) [Layout (Entry (UnresolvedFrames F))] [Frame F]
    (guard : ProfilerGuard) (r : Report) : Prop :=
  ∃ (σ : Type) (profiler : Except Error (Profiler F)) (now : Clock)
    (processor : Option (Frames → σ → Frames × σ)) (s : σ) (fault : Option ReadFault),
    ReportBuilder.build { (guard.report profiler now : ReportBuilder F σ) with
      frames_post_processor := processor } s fault = .ok (.ok r)

theorem makes_frequency {timer : Timer} {r : Report}
    (h : (⟨some timer⟩ : ProfilerGuard).Makes F r) : r.timing.frequency = timer.frequency := by
  obtain ⟨σ,profiler,now,processor,s,fault,h⟩ := h
  unfold ReportBuilder.build at h
  split at h
  · cases h
  · split at h
    · cases h
    · obtain ⟨data,-,hp⟩ := bind_eq_ok.mp h
      cases hp
      rfl

/-- The timer of a guard is armed with an interval that is less than a microsecond from the
period of its profiles just if it asks for a million samples a second at most. -/
theorem timer_period_iff {b : ProfilerGuardBuilder} {w w' : World F} {faults : BuildFaults}
    {now : Clock} {guard : ProfilerGuard} (h : b.build w faults now = (.ok (.ok guard),w'))
    (hf : 0 < b.frequency.toInt) :
    (w'.os.itimer = ⟨interval b.frequency,interval b.frequency⟩ ∧
        (interval b.frequency).Valid ∧ w'.os.Armed ∧
        ∀ r, guard.Makes F r → ∀ (o : Iterated r) p, r.pprof o = .ok p →
          ((interval b.frequency).nanos-p.period).natAbs < 1000) ↔
      b.frequency.toInt ≤ 1000000 := by
  obtain ⟨timer,rfl,htimer,os,hos⟩ := build_timer h
  have hv := interval_in_range hf
  have hitimer : w'.os.itimer = ⟨interval b.frequency,interval b.frequency⟩ := by
    rw [hos,Os.setitimer,if_pos (And.intro hv hv)]
  constructor
  · rintro ⟨-,-,⟨hvalue,-⟩,-⟩
    rw [hitimer] at hvalue
    exact Int.not_lt.mp fun hfast => hvalue ((interval_zero_iff hf).mpr hfast)
  · intro hslow
    have hne := (interval_valid hf hslow).2
    refine ⟨hitimer,hv,?_,fun r hr o p hp => ?_⟩
    · rw [Os.Armed,hitimer]
      exact ⟨hne,hne⟩
    · have hperiod : p.period = 1000*1000000/b.frequency.toInt := by
        rw [period_eq hp,makes_frequency hr,htimer]
        exact Int.tdiv_eq_ediv_of_nonneg (by decide)
      have hfactor : (0 : Int) < 1000 := by decide
      obtain ⟨hlow,hhigh⟩ := scaled_quotient hfactor hf 1000000
      rw [hperiod,interval_nanos hf]
      omega

end Timers

theorem plainWorld_guard (b : ProfilerGuardBuilder) (hf : b.frequency ≠ 0) :
    letI := plainTarget
    letI := plainLayout
    ∃ guard, ∃ w' : World PlainFrame,
      b.build plainWorld ⟨false,false⟩ plainClock = (.ok (.ok guard),w') := by
  let _ := plainTarget
  let _ := plainLayout
  obtain ⟨p,ht,hrun⟩ := plainWorld_trigger
  obtain ⟨timer,hb⟩ := build_guard ht hrun rfl hf plainClock
  exact ⟨_,_,hb⟩

theorem timer_period_iff_default :
    letI := plainTarget
    letI := plainLayout
    ∃ guard, ∃ w' : World PlainFrame, ProfilerGuardBuilder.default.build plainWorld ⟨false,false⟩
      plainClock = (.ok (.ok guard),w') ∧ w'.os.Armed := by
  let _ := plainTarget
  let _ := plainLayout
  let _ := plainResolver
  obtain ⟨guard,w',h⟩ := plainWorld_guard .default (by decide)
  obtain ⟨-,-,harmed,-⟩ := (timer_period_iff h (by decide)).mpr (by decide)
  exact ⟨guard,w',h,harmed⟩

theorem fast_timer_disarmed :
    letI := plainTarget
    letI := plainLayout
    ∃ guard, ∃ w' : World PlainFrame, (⟨2000000,false,[]⟩ : ProfilerGuardBuilder).build plainWorld
      ⟨false,false⟩ plainClock = (.ok (.ok guard),w') ∧ w'.os.Disarmed := by
  let _ := plainTarget
  let _ := plainLayout
  obtain ⟨guard,w',h⟩ := plainWorld_guard ⟨2000000,false,[]⟩ (by decide)
  obtain ⟨-,-,-,os,hos⟩ := build_timer h
  refine ⟨guard,w',h,?_⟩
  rw [hos]
  rfl

end Pprof
