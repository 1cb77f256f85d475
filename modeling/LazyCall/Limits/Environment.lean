import LazyCall.Limits.Text
import LazyCall.Numeral
import LazyCall.Text.Blank

/-!
# Limits from the environment

Each limit may be set by a variable of the process environment. A set variable is trimmed of
blanks at both ends and read as a non-negative integer below `2 ^ 64`, with an optional `+`; the
arity variable is read first. A variable that does not read is refused with its text as it was
set. The limits read are then validated.
-/

namespace LazyCall.Limits

/-- The variable that sets the arity limit. -/
def arityVariable : String := "SLOTH_MAX_ARITY"

/-- The variable that sets the chain limit. -/
def depthVariable : String := "SLOTH_MAX_CHAIN_DEPTH"

/-- Reads one variable: absent keeps `default`. -/
def readVariable (var : String) (default : Nat) : Option String → Except LimitsError Nat
  | none => .ok default
  | some value =>
    match readWord? (Text.trim value) with
    | some n => .ok n
    | none => .error (.env var value)

/-- The limits set by the two variables, validated. -/
def ofVariables (arity depth : Option String) : Except LimitsError Limits := do
  let a ← readVariable arityVariable maxSupportedArity arity
  let d ← readVariable depthVariable 10000 depth
  validate { maxArity := a, maxChainDepth := d }

end LazyCall.Limits
