import Pprof.Frames
set_option autoImplicit false

/-! The process state that the profiler changes, which is the SIGPROF action and the
interval timer ITIMER_PROF, and `timer.rs` over it. -/

namespace Pprof

inductive SigHandler where
  | SigDfl
  | SigIgn
  | perf_signal_handler
  | Handler (function : Nat)
  deriving DecidableEq, Repr

structure SaFlags where
  SA_SIGINFO : Bool
  SA_RESTART : Bool
  SA_ONSTACK : Bool
  deriving DecidableEq, Repr

structure SigAction where
  handler : SigHandler
  flags : SaFlags
  mask : List Nat
  deriving DecidableEq, Repr

structure Timeval where
  tv_sec : Int
  tv_usec : Int
  deriving DecidableEq, Repr

structure Itimerval where
  it_interval : Timeval
  it_value : Timeval
  deriving DecidableEq, Repr

structure Os where
  sigprof : SigAction
  itimer : Itimerval
  deriving DecidableEq, Repr

def Os.sigaction (os : Os) (act : SigAction) (fails : Bool) : Except Error (SigAction × Os) :=
  if fails then .error .NixError else .ok (os.sigprof,{ os with sigprof := act })

def Timeval.zero : Timeval := ⟨0,0⟩

def Timeval.Valid (t : Timeval) : Prop := 0 ≤ t.tv_sec ∧ 0 ≤ t.tv_usec ∧ t.tv_usec < 1000000

instance (t : Timeval) : Decidable t.Valid := by unfold Timeval.Valid; infer_instance

/-- `setitimer(ITIMER_PROF, ..)`. Times out of range are refused with EINVAL, which
leaves the timer as it was; a value of zero disarms it. The callers drop the result. -/
def Os.setitimer (os : Os) (new_value : Itimerval) : Os :=
  if new_value.it_interval.Valid ∧ new_value.it_value.Valid then { os with itimer := new_value }
  else os

def Os.Armed (os : Os) : Prop :=
  os.itimer.it_value ≠ Timeval.zero ∧ os.itimer.it_interval ≠ Timeval.zero

def Os.Disarmed (os : Os) : Prop := os.itimer.it_value = Timeval.zero

instance (os : Os) : Decidable os.Armed := by unfold Os.Armed; infer_instance

instance (os : Os) : Decidable os.Disarmed := by unfold Os.Disarmed; infer_instance

theorem not_armed_of_disarmed {os : Os} (h : os.Disarmed) : ¬ os.Armed := fun ha => ha.1 h

structure Clock where
  system_time : SystemTime
  instant : Nat
  deriving DecidableEq, Repr

structure Timer where
  frequency : Int32
  start_time : SystemTime
  start_instant : Nat
  deriving DecidableEq

structure ReportTiming where
  frequency : Int32
  start_time : SystemTime
  duration : Nat
  deriving DecidableEq

def ReportTiming.default : ReportTiming := ⟨1,⟨0,0⟩,0⟩

/-- The two divisions of `Timer::new` by a million truncate, as does the one by the frequency. -/
def interval (frequency : Int32) : Timeval :=
  let interval := Int.tdiv 1000000 frequency.toInt
  ⟨Int.tdiv interval 1000000,Int.tmod interval 1000000⟩

def Timer.new (os : Os) (frequency : Int32) (now : Clock) : Except Panic (Timer × Os) :=
  if frequency = 0 then .error .divideByZero
  else .ok (⟨frequency,now.system_time,now.instant⟩,
    os.setitimer ⟨interval frequency,interval frequency⟩)

def Timer.timing (t : Timer) (now : Clock) : ReportTiming :=
  ⟨t.frequency,t.start_time,now.instant-t.start_instant⟩

def Timer.drop (os : Os) : Os := os.setitimer ⟨Timeval.zero,Timeval.zero⟩

@[simp] theorem setitimer_sigprof (os : Os) (v : Itimerval) :
    (os.setitimer v).sigprof = os.sigprof := by
  unfold Os.setitimer
  split <;> rfl

@[simp] theorem drop_sigprof (os : Os) : (Timer.drop os).sigprof = os.sigprof :=
  setitimer_sigprof os _

theorem drop_disarmed (os : Os) : (Timer.drop os).Disarmed := by
  unfold Timer.drop Os.setitimer
  rw [if_pos (by decide)]
  rfl

theorem timer_new {os os' : Os} {frequency : Int32} {now : Clock} {t : Timer}
    (h : Timer.new os frequency now = .ok (t,os')) :
    frequency ≠ 0 ∧ os' = os.setitimer ⟨interval frequency,interval frequency⟩ := by
  unfold Timer.new at h
  by_cases hf : frequency = 0
  · simp [hf] at h
  · rw [if_neg hf] at h
    cases h
    exact ⟨hf,rfl⟩

theorem timer_new_total (os : Os) {frequency : Int32} (h : frequency ≠ 0) (now : Clock) :
    ∃ t, Timer.new os frequency now =
      .ok (t,os.setitimer ⟨interval frequency,interval frequency⟩) := ⟨_,if_neg h⟩

theorem interval_eq {frequency : Int32} (h : 0 < frequency.toInt) : interval frequency =
    ⟨1000000/frequency.toInt/1000000,1000000/frequency.toInt%1000000⟩ := by
  have hd : Int.tdiv 1000000 frequency.toInt = 1000000/frequency.toInt :=
    Int.tdiv_eq_ediv_of_nonneg (by decide)
  have hnonneg : 0 ≤ 1000000/frequency.toInt := Int.ediv_nonneg (by decide) (Int.le_of_lt h)
  simp only [interval,hd,Int.tdiv_eq_ediv_of_nonneg hnonneg,Int.tmod_eq_emod_of_nonneg hnonneg]

theorem interval_in_range {frequency : Int32} (h : 0 < frequency.toInt) :
    (interval frequency).Valid := by
  have hnonneg : 0 ≤ 1000000/frequency.toInt := Int.ediv_nonneg (by decide) (Int.le_of_lt h)
  simp only [interval_eq h,Timeval.Valid]
  omega

theorem interval_zero_iff {frequency : Int32} (h : 0 < frequency.toInt) :
    interval frequency = Timeval.zero ↔ 1000000 < frequency.toInt := by
  have hnonneg : 0 ≤ 1000000/frequency.toInt := Int.ediv_nonneg (by decide) (Int.le_of_lt h)
  have hlt : 1000000/frequency.toInt < 1 ↔ 1000000 < 1*frequency.toInt :=
    Int.ediv_lt_iff_lt_mul h
  rw [interval_eq h,Timeval.zero,Timeval.mk.injEq]
  omega

theorem interval_valid {frequency : Int32} (h₁ : 1 ≤ frequency.toInt)
    (h₂ : frequency.toInt ≤ 1000000) :
    (interval frequency).Valid ∧ interval frequency ≠ Timeval.zero := by
  refine ⟨interval_in_range h₁,fun hzero => ?_⟩
  have hfast := (interval_zero_iff h₁).mp hzero
  omega

end Pprof
