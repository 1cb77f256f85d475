import LazyCall.Script.Expr
import LazyCall.Json.Basic
import LazyCall.Numeral
import LazyCall.Decimal.Read

/-!
# The JSON form of scripts

An integer that fits in 64 signed bits is an integer expression, `true` and `false` are booleans,
`null` is unit and a string is a string. Every other expression is an object with exactly one
key, the tag, whose value is the operand. A bare array, a number with a fraction or out of range,
an unknown tag or a wrong operand is refused as a whole. The operand object of `lambda` takes
no members but its own, while that of `apply_to` ignores members it does not use.
-/

namespace LazyCall

namespace Json

/-- Whether an object has no members other than `allowed`. -/
def onlyKeys (j : Json) (allowed : List String) : Bool :=
  j.keys.all (allowed.contains ·)

/-- The single member of an object with exactly one distinct key. -/
def single? (j : Json) : Option (String × Json) :=
  match j.keys with
  | [k] => (j.get? k).map (k, ·)
  | _ => none

end Json

/-- The unary tags that look at a value without forcing it. -/
def Look.ofTag? : String → Option Look
  | "type" => some .kind
  | "show" => some .display
  | "debug" => some .debug
  | "arity" => some .arity
  | "as_integer" => some .asInteger
  | "to_function" => some .toFunction
  | _ => none

/-- The unary tags that look into a memo cell. -/
def CellLook.ofTag? : String → Option CellLook
  | "is_evaluated" => some .isEvaluated
  | "peek" => some .peek
  | _ => none

/-- The unary tags that look into a function. -/
def Part.ofTag? : String → Option Part
  | "need" => some .need
  | "bound" => some .bound
  | "name" => some .name
  | "env_of" => some .env
  | "is_partial" => some .isPartial
  | "env_len" => some .envLen
  | "env_is_empty" => some .envIsEmpty
  | "debug_closure" => some .debugClosure
  | _ => none

/-- The arithmetic tags. -/
def Arith.ofTag? : String → Option Arith
  | "add" => some .add
  | "sub" => some .sub
  | "mul" => some .mul
  | _ => none

/-- The targets of `apply_to`. -/
def Target.ofName? : String → Option Target
  | "value" => some .value
  | "function" => some .function
  | "closure" => some .closure
  | "lambda" => some .lambda
  | _ => none

/-- The longest `sleep`, in milliseconds. -/
def maxSleep : Nat := 200

namespace Expr

/-- An `int` operand: an integer, or the text of one. -/
def intOperand? : Json → Option Int64
  | .str s => match readInt64 s with
    | .ok n => some n
    | .error _ => none
  | j => j.asInt64?

/-- A `float` operand: a number, or the text of one. -/
def floatOperand? : Json → Option Float
  | .str s => Decimal.readFloat? s
  | j => j.asFloat?

mutual
/-- Reads an expression; `fuel` bounds the nesting. -/
def ofJson? : Nat → Json → Option Expr
  | 0, _ => none
  | fuel + 1, j =>
    match j with
    | .null => some .unit
    | .bool b => some (.bool b)
    | .str s => some (.str s)
    | .num _ => .int <$> j.asInt64?
    | .arr _ => none
    | .obj _ => do
      let (tag, x) ← j.single?
      ofTagged? fuel tag x

/-- Reads a callee followed by arguments. -/
def callOfJson? : Nat → Json → Option (Expr × List Expr)
  | 0, _ => none
  | fuel + 1, j => do
    match ← j.asArray? with
    | [] => none
    | c :: args => pure (← ofJson? fuel c, ← args.mapM (ofJson? fuel))

/-- Reads exactly `n` operands. -/
def operandsOfJson? : Nat → Nat → Json → Option (List Expr)
  | 0, _, _ => none
  | fuel + 1, n, j => do
    let items ← j.asArray?
    if items.length = n then items.mapM (ofJson? fuel) else none

/-- Reads the operand of a tag. -/
def ofTagged? : Nat → String → Json → Option Expr
  | 0, _, _ => none
  | fuel + 1, tag, x =>
    match tag with
    | "int" => .int <$> intOperand? x
    | "float" => .float <$> floatOperand? x
    | "str" => .str <$> x.asString?
    | "array" => do .array <$> (← x.asArray?).mapM (ofJson? fuel)
    | "foreign" => .foreign <$> x.asInt64?
    | "arg" => .arg <$> x.asWord?
    | "env" => .envSlot <$> x.asWord?
    | "var" => .var <$> x.asString?
    | "self" => some .self
    | "this" => some .this
    | "lambda" => do
      if !x.onlyKeys ["name", "arity", "env", "body", "fixed"] then none
      let name ← match x.get? "name" with
        | none => some "lambda"
        | some n => n.asString?
      let arity ← (← x.get? "arity").asWord?
      let env ← match x.get? "env" with
        | none => some none
        | some es => some <$> (← es.asArray?).mapM (ofJson? fuel)
      let body ← ofJson? fuel (← x.get? "body")
      match x.get? "fixed" with
      | none => pure ()
      | some b => do let _ ← b.asBool?
      pure (.lambda name arity env body)
    | "apply" => do let (c, args) ← callOfJson? fuel x; pure (.apply c args)
    | "eval" => do let (c, args) ← callOfJson? fuel x; pure (.eval c args)
    | "applied" => do let (c, args) ← callOfJson? fuel x; pure (.applied c args)
    | "invoke" => do let (c, args) ← callOfJson? fuel x; pure (.invoke c args)
    | "apply_to" => do
      let target ← Target.ofName? (← (← x.get? "target").asString?)
      let callee ← ofJson? fuel (← x.get? "callee")
      let args ← match x.get? "args" with
        | none => some []
        | some a => (← a.asArray?).mapM (ofJson? fuel)
      pure (.applyTo target callee args)
    | "force" => .force <$> ofJson? fuel x
    | "lazy" => .delay <$> ofJson? fuel x
    | "lazy_self" => .delaySelf <$> ofJson? fuel x
    | "ready" => .ready <$> ofJson? fuel x
    | "fail" => .fail <$> x.asString?
    | "panic" => .panic <$> x.asString?
    | "lt" => do
      match ← operandsOfJson? fuel 2 x with
      | [a, b] => pure (.less a b)
      | _ => none
    | "eq" => do
      match ← operandsOfJson? fuel 2 x with
      | [a, b] => pure (.same a b)
      | _ => none
    | "get" => do
      match ← operandsOfJson? fuel 2 x with
      | [a, b] => pure (.index a b)
      | _ => none
    | "if" => do
      match ← operandsOfJson? fuel 3 x with
      | [c, t, e] => pure (.cond c t e)
      | _ => none
    | "seq" => do .seq <$> (← x.asArray?).mapM (ofJson? fuel)
    | "len" => .length <$> ofJson? fuel x
    | "parse_int" => .parseInt <$> ofJson? fuel x
    | "resolver_config" => some .limits
    | "sleep" => do
      let ms ← x.asWord?
      if ms ≤ maxSleep then pure (.sleep ms) else none
    | _ =>
      match Arith.ofTag? tag, Look.ofTag? tag, CellLook.ofTag? tag, Part.ofTag? tag with
      | some op, _, _, _ => do
        match ← operandsOfJson? fuel 2 x with
        | [a, b] => pure (.arith op a b)
        | _ => none
      | _, some l, _, _ => .look l <$> ofJson? fuel x
      | _, _, some l, _ => .cellLook l <$> ofJson? fuel x
      | _, _, _, some p => .part p <$> ofJson? fuel x
      | _, _, _, _ => none
end

/-- Reads a list of expressions, each with the same nesting bound. -/
def listOfJson? (fuel : Nat) (js : List Json) : Option (List Expr) :=
  js.mapM (ofJson? fuel)

end Expr

end LazyCall
