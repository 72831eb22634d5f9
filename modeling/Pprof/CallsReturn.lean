import Mathlib.Data.List.Perm.Basic
import Pprof.Lib.Progress
import Pprof.ReportsAtomic
set_option autoImplicit false

/-! Nothing that is under way waits for ever. Whoever has the lock can go on, whoever waits for
it gets it, and no step of a call undoes what another has done. -/

namespace Pprof
open Memory Runs

section Own
variable {F σ : Type}

/-- The steps of what is under way: they begin no call, no drop and no signal. -/
def Event.own : Event F → Bool
  | .arm | .restore .. | .reset _ | .sample .. | .give_up _ => true
  | _ => false

def ReportEvent.own : ReportEvent F σ → Bool
  | .other e => e.own
  | .enter .. => false
  | .read_next _ | .write_next => true

end Own

section Work
variable {F σ : Type} [Layout (Entry (UnresolvedFrames F))] [Target] [Frame F]

/-- A drop that has disarmed the timer and not yet returned. -/
def ProfilerGuard.dropping (g : ProfilerGuard) : Bool := g.timer.isNone

def Lock.work : Lock → Nat
  | .building .. => 2
  | .free => 1
  | .dropping _ => 0

def Threads.work (c : Threads F) : Nat :=
  c.lock.work+2*c.world.guards.countP ProfilerGuard.dropping+c.handlers.length

def Reporting.left (c : Reporting F σ) (x : ReportCall σ × ReportRun F σ) : Nat :=
  match c.threads.world.PROFILER with
  | some (.ok p) => x.2.left p+1
  | _ => 0

def Reporting.work (c : Reporting F σ) : Nat :=
  c.threads.work+(c.underway.map c.left).sum

variable [DefaultHasher] [Resolver]

variable {act : SigAction} {c c' : Reporting F σ}

end Work

end Pprof
