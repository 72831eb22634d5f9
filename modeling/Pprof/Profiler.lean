import Pprof.Collector
import Pprof.Timer
set_option autoImplicit false

/-! `Profiler` of `profiler.rs` and the signal handler that feeds it. What a call
changes before it fails stays changed, so the new state comes with the error. -/

namespace Pprof
open Memory TempFile

variable {F : Type} [Layout (Entry (UnresolvedFrames F))] [Target]

structure Profiler (F : Type) [Layout (Entry (UnresolvedFrames F))] [Target] where
  data : Collector (UnresolvedFrames F)
  sample_counter : Int
  old_sigaction : Option SigAction
  running : Bool
  on_stack : Bool
  blocklist_segments : List (UInt64 × UInt64)

def Profiler.new (fails : Bool) : Except Error (Profiler F) :=
  match Collector.new fails with
  | .ok data => .ok ⟨data,0,none,false,false,[]⟩
  | .error err => .error (.IoError err)

def Profiler.is_blocklisted (p : Profiler F) (addr : UInt64) : Bool :=
  p.blocklist_segments.any fun libs => libs.1 < addr && addr < libs.2

/-- `SA_ONSTACK` is only asked for when the `frame-pointer` feature is there. -/
def Profiler.handlerAction (p : Profiler F) : SigAction :=
  ⟨.perf_signal_handler,⟨true,true,Target.frame_pointer && p.on_stack⟩,[]⟩

def Profiler.register_signal_handler (p : Profiler F) (os : Os) (fails : Bool) :
    Except Error Unit × Profiler F × Os :=
  match os.sigaction p.handlerAction fails with
  | .ok (old_action,os) => (.ok (),{ p with old_sigaction := some old_action },os)
  | .error err => (.error err,p,os)

def Profiler.unregister_signal_handler (p : Profiler F) (os : Os) (fails : Bool) :
    Except Error Unit × Profiler F × Os :=
  match p.old_sigaction with
  | some old_action =>
    match os.sigaction old_action fails with
    | .ok (_,os) => (.ok (),{ p with old_sigaction := none },os)
    | .error err => (.error err,{ p with old_sigaction := none },os)
  | none => (.ok (),p,os)

def Profiler.start (p : Profiler F) (os : Os) (fails : Bool) :
    Except Error Unit × Profiler F × Os :=
  if p.running then (.error .Running,p,os)
  else
    match p.register_signal_handler os fails with
    | (.ok (),p,os) => (.ok (),{ p with running := true },os)
    | (.error err,p,os) => (.error err,p,os)

def Profiler.init (p : Profiler F) (fails : Bool) : Except Error Unit × Profiler F :=
  match Collector.new fails with
  | .ok data => (.ok (),{ p with sample_counter := 0, data, running := false })
  | .error err => (.error (.IoError err),{ p with sample_counter := 0 })

structure StopFaults where
  restore : Bool
  create : Bool
  deriving DecidableEq

def Profiler.stop (p : Profiler F) (os : Os) (faults : StopFaults) :
    Except Error Unit × Profiler F × Os :=
  if p.running then
    match p.unregister_signal_handler os faults.restore with
    | (.ok (),p,os) =>
      let (result,p) := p.init faults.create
      (result,p,os)
    | (.error err,p,os) => (.error err,p,os)
  else (.error .NotRunning,p,os)

/-- The callback of the trace, from the frame with number `index` on. A blocklisted
frame or a full buffer ends the trace. -/
def Profiler.capture [Frame F] (p : Profiler F) : Nat → List F → List F
  | _, [] => []
  | index, frame :: rest =>
    if Target.frame_pointer && p.is_blocklisted (ip frame) then []
    else if index < MAX_DEPTH then frame :: p.capture (index+1) rest
    else []

/-- What a handler run finds: the program counter, unless the context is null, the frames
that the unwinder has to offer, the thread and the time. -/
structure Interrupted (F : Type) where
  addr : Option UInt64
  trace : List F
  thread_name : List UInt8
  thread_id : UInt64
  sample_timestamp : SystemTime

section Recording
variable [Frame F] [DefaultHasher]

/-- The result of `add` is dropped. -/
def Profiler.sample (p : Profiler F) (backtrace : List F) (thread_name : List UInt8)
    (thread_id : UInt64) (sample_timestamp : SystemTime) (fault : Option Nat) :
    Except Panic (Profiler F) := do
  let frames ← UnresolvedFrames.new backtrace thread_name thread_id sample_timestamp
  let sample_counter ← addI32 p.sample_counter 1
  let (_,data) ← p.data.add frames 1 fault
  pure { p with sample_counter, data }

/-- `perf_signal_handler` once it has the lock. It does not look at `running`. -/
def perf_signal_handler (profiler : Except Error (Profiler F)) (at_ : Interrupted F)
    (fault : Option Nat) : Except Panic (Except Error (Profiler F)) :=
  match profiler with
  | .error err => .ok (.error err)
  | .ok p =>
    if at_.addr.any p.is_blocklisted then .ok (.ok p)
    else do
      let p ← p.sample (p.capture 0 at_.trace) at_.thread_name at_.thread_id
        at_.sample_timestamp fault
      pure (.ok p)

theorem handler_keeps {p : Profiler F} {at_ : Interrupted F} {fault : Option Nat}
    {profiler : Except Error (Profiler F)}
    (h : perf_signal_handler (.ok p) at_ fault = .ok profiler) :
    ∃ p', profiler = .ok p' ∧ p'.running = p.running ∧ p'.old_sigaction = p.old_sigaction := by
  unfold perf_signal_handler at h
  by_cases hb : at_.addr.any p.is_blocklisted
  · simp only [hb,if_true] at h
    cases h
    exact ⟨p,rfl,rfl,rfl⟩
  · simp only [hb] at h
    obtain ⟨p',hs,hp⟩ := bind_eq_ok.mp h
    obtain rfl := pure_eq_ok.mp hp
    obtain ⟨u,-,hs⟩ := bind_eq_ok.mp hs
    obtain ⟨n,-,hs⟩ := bind_eq_ok.mp hs
    obtain ⟨⟨r,data⟩,-,hs⟩ := bind_eq_ok.mp hs
    obtain rfl := pure_eq_ok.mp hs
    exact ⟨_,rfl,rfl,rfl⟩

end Recording

theorem profiler_new : ∃ p : Profiler F, Profiler.new false = .ok p := ⟨_,rfl⟩

theorem start_running {p : Profiler F} (h : p.running = true) (os : Os) (fails : Bool) :
    p.start os fails = (.error .Running,p,os) := if_pos h

theorem start_fails {p : Profiler F} (h : p.running = false) (os : Os) :
    p.start os true = (.error .NixError,p,os) := by
  simp [Profiler.start,h,Profiler.register_signal_handler,Os.sigaction]

theorem start_ok {p : Profiler F} (h : p.running = false) (os : Os) :
    p.start os false = (.ok (),{ p with old_sigaction := some os.sigprof, running := true },
      { os with sigprof := p.handlerAction }) := by
  simp [Profiler.start,h,Profiler.register_signal_handler,Os.sigaction]

theorem stop_not_running {p : Profiler F} (h : p.running = false) (os : Os)
    (faults : StopFaults) : p.stop os faults = (.error .NotRunning,p,os) := by
  simp [Profiler.stop,h]

theorem stop_ok {p : Profiler F} (h : p.running = true) {act : SigAction}
    (ha : p.old_sigaction = some act) (os : Os) {data : Collector (UnresolvedFrames F)}
    (hd : Collector.new false = .ok data) :
    p.stop os ⟨false,false⟩ = (.ok (),{ p with
      data, sample_counter := 0, old_sigaction := none, running := false },
      { os with sigprof := act }) := by
  simp [Profiler.stop,h,Profiler.unregister_signal_handler,ha,Os.sigaction,Profiler.init,hd]

structure PlainFrame where
  ip : UInt64
  symbol_address : UInt64
  symbols : List Symbol

instance : Frame PlainFrame := ⟨PlainFrame.ip,PlainFrame.symbol_address,PlainFrame.symbols⟩

@[reducible] def plainResolver : Resolver := ⟨fun _ => none,id⟩

@[reducible] def plainHasher : DefaultHasher := ⟨fun writes => UInt64.ofNat writes.length⟩

def plainOs : Os := ⟨⟨.SigDfl,⟨false,false,false⟩,[]⟩,⟨Timeval.zero,Timeval.zero⟩⟩

@[reducible] def plainTarget : Target := ⟨128,239,false,Nat.succ_pos 238⟩

@[reducible] def plainLayout : Layout (Entry (UnresolvedFrames PlainFrame)) :=
  indexedLayout _ 1096 (Nat.succ_pos 1095)

end Pprof
