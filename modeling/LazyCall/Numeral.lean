/-!
# Integer literals

Reading decimal integer literals into 64-bit words. A literal is an optional sign followed by ASCII
digits. Reading goes from left to right and stops at the first problem: a character that is not a
digit, or a prefix whose value leaves the range. A signed literal may carry `+` or `-`; an
unsigned one only `+`.
-/

namespace LazyCall

/-- Why a text is not a signed 64-bit literal. -/
inductive IntError where
  | empty
  | invalidDigit
  | posOverflow
  | negOverflow
  deriving Repr, DecidableEq

namespace IntError

/-- The sentence that describes the error. -/
def message : IntError → String
  | .empty => "cannot parse integer from empty string"
  | .invalidDigit => "invalid digit found in string"
  | .posOverflow => "number too large to fit in target type"
  | .negOverflow => "number too small to fit in target type"

/-- The name of the error kind. -/
def kindName : IntError → String
  | .empty => "Empty"
  | .invalidDigit => "InvalidDigit"
  | .posOverflow => "PosOverflow"
  | .negOverflow => "NegOverflow"

end IntError

/-- Accumulates the digits `cs` onto `acc`, failing with `tooBig` as soon as the value passes
`limit`; a non-digit fails first. -/
def accumulateDigits (limit : Nat) (tooBig : IntError) : Nat → List Char → Except IntError Nat
  | acc, [] => .ok acc
  | acc, c :: cs =>
    if c.isDigit then
      let next := 10 * acc + (c.toNat - '0'.toNat)
      if next > limit then .error tooBig else accumulateDigits limit tooBig next cs
    else .error .invalidDigit

/-- Reads a signed 64-bit decimal literal. -/
def readInt64 (s : String) : Except IntError Int64 :=
  match s.toList with
  | [] => .error .empty
  | ['+'] => .error .invalidDigit
  | ['-'] => .error .invalidDigit
  | '-' :: ds => (accumulateDigits (Nat.pow 2 63) .negOverflow 0 ds).map fun n => Int64.ofInt (-(n : Int))
  | '+' :: ds => (accumulateDigits (Nat.pow 2 63 - 1) .posOverflow 0 ds).map fun n => Int64.ofNat n
  | ds => (accumulateDigits (Nat.pow 2 63 - 1) .posOverflow 0 ds).map fun n => Int64.ofNat n

/-- Reads an unsigned 64-bit decimal literal. -/
def readWord? (s : String) : Option Nat :=
  let ds := match s.toList with
    | ['+'] => ['+']
    | '+' :: ds => ds
    | ds => ds
  if ds = [] then none
  else match accumulateDigits (Nat.pow 2 64 - 1) .posOverflow 0 ds with
    | .ok n => some n
    | .error _ => none

end LazyCall
