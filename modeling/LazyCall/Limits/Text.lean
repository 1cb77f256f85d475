import LazyCall.Limits
import LazyCall.Json.Reader
import LazyCall.Text.Quoted

/-!
# Limits from JSON text

A configuration text is a JSON object with at most the members `max_arity` and `max_chain_depth`,
each a non-negative integer below `2 ^ 64`, or an array of at most two such integers in that
order. A missing member keeps its default; an unknown or repeated member is refused. The text is
read in one pass, so the first problem in reading order is the one reported; a problem of meaning
(a wrong type, an unknown key) is placed where the reader stood when the enclosing value was
done. A configuration that reads is then validated.
-/

namespace LazyCall

/-- Why a configuration of limits was refused, in words. -/
def LimitsError.message : LimitsError → String
  | .parse text => "invalid runtime config: " ++ text
  | .env var value => "invalid value for " ++ var ++ ": " ++ Text.quote value
  | .arityTooLarge a =>
    "max_arity " ++ toString a ++ " exceeds the supported maximum " ++ toString maxSupportedArity
  | .zeroChainDepth => "max_chain_depth must be at least 1"

/-- The name of the kind of refusal. -/
def LimitsError.kindName : LimitsError → String
  | .parse _ => "Parse"
  | .env .. => "Env"
  | .arityTooLarge _ => "ArityTooLarge"
  | .zeroChainDepth => "ZeroChainDepth"

namespace Json.Reader

/-- A value found where another kind was expected, as messages describe it. -/
inductive Found where
  | null
  | bool (b : Bool)
  | integer (n : Int)
  | float (x : Float)
  | string (s : String)
  | sequence
  | map

/-- How a message describes a found value. -/
def Found.text : Found → String
  | .null => "null"
  | .bool b => "boolean `" ++ (if b then "true" else "false") ++ "`"
  | .integer n => "integer `" ++ toString n ++ "`"
  | .float x => "floating point `" ++ Decimal.Style.compact.write x ++ "`"
  | .string s => "string " ++ Text.quote s
  | .sequence => "sequence"
  | .map => "map"

/-- The found value of a number. -/
def Found.ofNumber : Number → Found
  | .unsigned n => .integer n
  | .negative n => .integer n
  | .float x => .float x

/-- A value of the wrong kind. -/
def wrongType (found : Found) (expected : String) : Problem :=
  .custom ("invalid type: " ++ found.text ++ ", expected " ++ expected)

/-- Reads the value ahead far enough to say what it is, and refuses it as not `expected`. -/
def refuseValue {α : Type} (expected : String) : Reader α := placed do
  match ← peek? with
  | some 'n' => do bump; expectWord ['u', 'l', 'l']; failUnplaced (wrongType .null expected)
  | some 't' => do bump; expectWord ['r', 'u', 'e']; failUnplaced (wrongType (.bool true) expected)
  | some 'f' => do
    bump
    expectWord ['a', 'l', 's', 'e']
    failUnplaced (wrongType (.bool false) expected)
  | some '-' => do
    bump
    let n ← number false
    failUnplaced (wrongType (.ofNumber n) expected)
  | some '"' => do
    bump
    let s ← string
    failUnplaced (wrongType (.string s) expected)
  | some '[' => failUnplaced (wrongType .sequence expected)
  | some '{' => failUnplaced (wrongType .map expected)
  | some c =>
    if c.isDigit then do
      let n ← number true
      failUnplaced (wrongType (.ofNumber n) expected)
    else failAhead .expectedValue
  | none => failAhead .expectedValue

/-- Takes a number as a word. -/
def asWord : Number → Reader Nat
  | .unsigned n => pure n
  | .negative n => failUnplaced (.custom ("invalid value: integer `" ++ toString n ++ "`, expected usize"))
  | .float x => failUnplaced (wrongType (.float x) "usize")

/-- Reads a non-negative integer below `2 ^ 64`. -/
def word : Reader Nat := placed do
  match ← peekToken? with
  | none => failAhead .eofInValue
  | some '-' => do
    bump
    asWord (← number false)
  | some c => if c.isDigit then do asWord (← number true) else refuseValue "usize"

/-- The two members of a configuration. -/
inductive Member where
  | arity
  | depth

/-- Names a member, refusing an unknown key or a key already given. -/
def member (seen : Member → Bool) (key : String) : Reader Member :=
  if key = "max_arity" then
    if seen .arity then failUnplaced (.custom "duplicate field `max_arity`") else pure .arity
  else if key = "max_chain_depth" then
    if seen .depth then failUnplaced (.custom "duplicate field `max_chain_depth`") else pure .depth
  else failUnplaced (.custom ("unknown field `" ++ key ++ "`, expected `max_arity` or `max_chain_depth`"))

/-- Reads the members of a configuration object up to its closing brace. -/
def limitsMembers : Nat → Bool → Option Nat → Option Nat → Reader Limits
  | 0, _, a, d => pure { maxArity := a.getD maxSupportedArity, maxChainDepth := d.getD 10000 }
  | fuel + 1, first, a, d => do
    let seen : Member → Bool := fun | .arity => a.isSome | .depth => d.isSome
    match ← memberKey first (member seen) with
    | none => pure { maxArity := a.getD maxSupportedArity, maxChainDepth := d.getD 10000 }
    | some .arity => do
      let v ← word
      limitsMembers fuel false (some v) d
    | some .depth => do
      let v ← word
      limitsMembers fuel false a (some v)

/-- Reads the next item of a configuration array, if there is one. -/
def limitsItem (first : Bool) : Reader (Option Nat) := do
  match ← itemStart first with
  | none => pure none
  | some _ => some <$> word

/-- Reads the items of a configuration array: the arity limit, then the chain limit. -/
def limitsItems : Reader Limits := do
  let a ← limitsItem true
  let d ← limitsItem a.isNone
  pure { maxArity := a.getD maxSupportedArity, maxChainDepth := d.getD 10000 }

/-- The outcome of a body and of the closing that follows it: the body's failure first. -/
def settle {α : Type} : Except ReadError α → Except ReadError Unit → Reader α
  | .ok a, .ok () => pure a
  | .error e, _ => throw e
  | .ok _, .error e => throw e

/-- Reads a configuration value. -/
def limits : Reader Limits := placed do
  match ← peekToken? with
  | none => failAhead .eofInValue
  | some '[' => do
    bump
    let body ← attempt limitsItems
    let close ← attempt closeList
    settle body close
  | some '{' => do
    bump
    let cur ← get
    let body ← attempt (limitsMembers (cur.left + 1) true none none)
    let close ← attempt closeObject
    settle body close
  | some _ => refuseValue "struct RuntimeConfig"

end Json.Reader

namespace Limits

/-- Reads and validates a configuration text. -/
def ofJsonText (s : String) : Except LimitsError Limits :=
  match (do let l ← Json.Reader.limits; Json.Reader.finish; pure l) (Json.Cursor.start s) with
  | .ok l _ => l.validate
  | .error e _ => .error (.parse e.text)

end Limits

end LazyCall
