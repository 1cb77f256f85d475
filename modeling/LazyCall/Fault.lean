import LazyCall.Numeral
import LazyCall.Text.Quoted

/-!
# Faults

The seven ways an application, an invocation or a force can fail. Each fault has a code and a
title, a message, a rendering for diagnostics (`error[CODE]: TITLE`, a blank line, the message and
a full stop) and a debugging text. The two faults that only a broken producer of callables can
cause, a wrong argument count and applying a non-function, are *internal*.
-/

namespace LazyCall

/-- The kinds of runtime values, by the names that faults and scripts use. -/
inductive ValueKind where
  | int
  | float
  | bool
  | string
  | unit
  | array
  | function
  | thunk
  | foreign
  deriving Repr, DecidableEq

/-- The name of a kind. -/
def ValueKind.name : ValueKind → String
  | .int => "Int"
  | .float => "Float"
  | .bool => "Bool"
  | .string => "String"
  | .unit => "Unit"
  | .array => "Array"
  | .function => "Function"
  | .thunk => "Thunk"
  | .foreign => "Foreign"

/-- The error that a body or a computation raised. -/
inductive BodyError where
  /-- An error that is only a message. -/
  | message (text : String)
  /-- The error of reading a text as a signed 64-bit integer. -/
  | intLiteral (e : IntError)
  deriving Repr, DecidableEq

/-- Why an application, an invocation or a force failed. -/
inductive Fault where
  /-- A callable was invoked with other than its exact argument count. -/
  | arityMismatch (name : String) (expected got : Nat)
  /-- Application reached a value that is not a function. -/
  | notCallable (kind : ValueKind)
  /-- A memo cell was forced again while its own computation was running. -/
  | cyclicForce
  /-- A callable's arity is above the limit. -/
  | arityOutOfRange (arity max : Nat)
  /-- An over-application chain went on for more steps than the limit. -/
  | chainTooDeep (limit : Nat)
  /-- A computation panicked while its cell was being forced. -/
  | panicked
  /-- A body or a computation raised an error. -/
  | body (e : BodyError)
  deriving Repr, DecidableEq

namespace Fault

/-- The name of the fault's variant. -/
def kindName : Fault → String
  | .arityMismatch .. => "ArityMismatch"
  | .notCallable _ => "NotCallable"
  | .cyclicForce => "CyclicForce"
  | .arityOutOfRange .. => "ArityOutOfRange"
  | .chainTooDeep _ => "ChainTooDeep"
  | .panicked => "Panicked"
  | .body _ => "Body"

/-- The error code. -/
def code : Fault → String
  | .arityMismatch .. => "E1000"
  | .notCallable _ => "E1001"
  | .body _ => "E1003"
  | .cyclicForce => "E1010"
  | .arityOutOfRange .. => "E1011"
  | .chainTooDeep _ => "E1012"
  | .panicked => "E1013"

/-- The title that goes with the code. -/
def title : Fault → String
  | .arityMismatch .. => "WRONG NUMBER OF ARGUMENTS"
  | .notCallable _ => "NOT A FUNCTION"
  | .body _ => "EVALUATION FAULT"
  | .cyclicForce => "INFINITE LOOP IN LAZY BINDING"
  | .arityOutOfRange .. => "ARITY OUT OF RANGE"
  | .chainTooDeep _ => "APPLICATION TOO DEEP"
  | .panicked => "PANIC IN THUNK"

/-- Whether only a broken producer of callables can cause the fault. -/
def internal : Fault → Bool
  | .arityMismatch .. => true
  | .notCallable _ => true
  | _ => false

/-- The message of the fault. -/
def message : Fault → String
  | .arityMismatch name expected got =>
    "function `" ++ name ++ "` expects " ++ toString expected ++ " arguments, got " ++ toString got
  | .notCallable kind => "cannot apply a non-function value (got " ++ kind.name ++ ")"
  | .cyclicForce => "thunk forced while it was being evaluated"
  | .arityOutOfRange arity max =>
    "arity " ++ toString arity ++ " exceeds the maximum supported arity " ++ toString max
  | .chainTooDeep limit => "application chain exceeded " ++ toString limit ++ " steps"
  | .panicked => "computation panicked while being forced"
  | .body (.message text) => text
  | .body (.intLiteral e) => e.message

/-- The diagnostic rendering: code, title, a blank line, then the message and a full stop. -/
def render (f : Fault) : String :=
  "error[" ++ f.code ++ "]: " ++ f.title ++ "\n\n" ++ f.message ++ "."

/-- The debugging text of the fault. -/
def debug : Fault → String
  | .arityMismatch name expected got =>
    "ArityMismatch \x7B name: " ++ Text.quote name ++ ", expected: " ++ toString expected ++
      ", got: " ++ toString got ++ " \x7D"
  | .notCallable kind => "NotCallable \x7B type_name: " ++ Text.quote kind.name ++ " \x7D"
  | .cyclicForce => "CyclicForce"
  | .arityOutOfRange arity max =>
    "ArityOutOfRange \x7B arity: " ++ toString arity ++ ", max: " ++ toString max ++ " \x7D"
  | .chainTooDeep limit => "ChainTooDeep \x7B limit: " ++ toString limit ++ " \x7D"
  | .panicked => "Panicked"
  | .body (.message text) => "Body(BodyFault(" ++ Text.quote text ++ "))"
  | .body (.intLiteral e) => "Body(BodyFault(ParseIntError \x7B kind: " ++ e.kindName ++ " \x7D))"

/-- The name of the typed error inside a body fault, when there is one. -/
def carried : Fault → Option String
  | .body (.intLiteral _) => some "ParseIntError"
  | _ => none

end Fault

end LazyCall
