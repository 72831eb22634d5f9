import Mathlib.Algebra.Ring.Int.Defs
import Mathlib.Algebra.Ring.Nat
import Pprof.Lib.TempFile
set_option autoImplicit false

namespace Pprof

/-- What stops a call without a return value. The stack is unwound and locks
are released, but what was written before the panic stays written. -/
inductive Panic where
  | overflow | divideByZero | outOfBounds | unreachable | unwrapNone
  deriving DecidableEq, Repr

inductive Error where
  | NixError
  | IoError (err : TempFile.IoError)
  | CreatingError
  | Running
  | NotRunning
  deriving DecidableEq, Repr

def InIsize (n : Int) : Prop := -2^63 ≤ n ∧ n < 2^63

def InI32 (n : Int) : Prop := -2^31 ≤ n ∧ n < 2^31

def InI64 (n : Int) : Prop := -2^63 ≤ n ∧ n < 2^63

instance (n : Int) : Decidable (InIsize n) := by unfold InIsize; infer_instance

instance (n : Int) : Decidable (InI32 n) := by unfold InI32; infer_instance

instance (n : Int) : Decidable (InI64 n) := by unfold InI64; infer_instance

def addIsize (a b : Int) : Except Panic Int :=
  if InIsize (a+b) then .ok (a+b) else .error .overflow

def addI32 (a b : Int) : Except Panic Int :=
  if InI32 (a+b) then .ok (a+b) else .error .overflow

def addUsize (a b : Nat) : Except Panic Nat :=
  if a+b < 2^64 then .ok (a+b) else .error .overflow

def mulI64 (a b : Int) : Except Panic Int :=
  if InI64 (a*b) then .ok (a*b) else .error .overflow

/-- Division truncates; it overflows when it negates the least number. -/
def divI64 (a b : Int) : Except Panic Int :=
  if b = 0 then .error .divideByZero
  else if InI64 (Int.tdiv a b) then .ok (Int.tdiv a b) else .error .overflow

def asI64 (n : Nat) : Int := Int.bmod n (2^64)

theorem bind_eq_ok {ε α β : Type} {x : Except ε α} {f : α → Except ε β} {r : β} :
    x >>= f = .ok r ↔ ∃ a, x = .ok a ∧ f a = .ok r := by
  cases x <;> simp [bind,Except.bind]

theorem pure_eq_ok {ε α : Type} {a r : α} : (pure a : Except ε α) = .ok r ↔ a = r := by
  simp [pure,Except.pure]

/-- What the target and the chosen features fix at compile time. `BUFFER_LENGTH` is
`(1 << 18) / size_of::<Entry<UnresolvedFrames>>()`; a build with a larger entry
could not store a single one. -/
class Target where
  MAX_DEPTH : Nat
  BUFFER_LENGTH : Nat
  frame_pointer : Bool
  BUFFER_LENGTH_pos : 0 < BUFFER_LENGTH

export Target (MAX_DEPTH BUFFER_LENGTH BUFFER_LENGTH_pos)

end Pprof
