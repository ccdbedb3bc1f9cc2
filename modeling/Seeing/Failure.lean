/-!
# Failures

A computation that gives no result either reports an error or crashes: it was asked for a value that
its data do not hold.
-/

namespace Seeing

/-- Why a computation gave no result. -/
inductive Failure (ε : Type) where
  /-- It reported an error. -/
  | error (e : ε)
  /-- It was asked for a value that its data do not hold. -/
  | crash
  deriving DecidableEq, Repr

namespace Failure

variable {ε δ β : Type}

/-- The failure with its error replaced by its image. -/
def map (f : ε → δ) : Failure ε → Failure δ
  | .error e => .error (f e)
  | .crash => .crash

/-- A result, or a crash where there is none. -/
def ofOption : Option β → Except (Failure ε) β
  | some b => .ok b
  | none => .error .crash

/-- A result, or a failure by the error reported. -/
def ofExcept : Except ε β → Except (Failure ε) β
  | .ok b => .ok b
  | .error e => .error (.error e)

end Failure

end Seeing
