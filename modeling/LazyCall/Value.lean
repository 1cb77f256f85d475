import LazyCall.Fault
import LazyCall.Script.Expr

/-!
# Values

Runtime values: integers, doubles, booleans, strings, unit, arrays, functions, memo cells and
foreign payloads. A memo cell is named by its place in the machine (`Value.thunk`), so values stay
plain data and the cell's state lives in the machine.

A function (`Callable`) is a lambda closed over a captured environment, plus the arguments bound so
far. Its closure and its list of bound arguments have identities of their own: two functions are
equal when they share the closure and either both have no bound arguments or share the list. A list
of bound arguments is never the same list as an empty one, so a function without bound arguments
meets only functions without them. So a function equals itself and its copies, and two separate
partial applications never meet.

Equality of values (`Value.same`) compares integers, booleans, strings and unit by value, doubles
as numbers (so a NaN differs from itself and `0.0` meets `-0.0`), arrays item by item, functions as
above, and memo cells and foreign payloads by identity. Values of different kinds never meet.
-/

namespace LazyCall

/-- A lambda: its name, its arity, its body, and the slot of the machine that holds the function
it was built as (the body's `self`). -/
structure Lambda where
  name : String
  arity : Nat
  body : Expr
  home : Nat
  deriving Inhabited

/-- A function over values of type `α`: a lambda with its captured environment, whose closure has
the identity `closure`, and the arguments bound so far, whose list has the identity `boundId`. -/
structure Callable (α : Type) where
  lambda : Lambda
  env : List α
  closure : Nat
  bound : List α
  boundId : Nat

/-- Runtime values. -/
inductive Value where
  | int (n : Int64)
  | float (x : Float)
  | bool (b : Bool)
  | str (s : String)
  | unit
  | array (items : List Value)
  | func (f : Callable Value)
  /-- The memo cell in the given place of the machine. -/
  | thunk (cell : Nat)
  /-- A foreign payload with its identity and the integer it carries. -/
  | foreign (id : Nat) (tag : Int64)

instance : Inhabited Value := ⟨.unit⟩

/-- A function over runtime values. -/
abbrev Fn := Callable Value

namespace Callable

variable {α : Type}

/-- The lambda's name. -/
def name (f : Callable α) : String := f.lambda.name

/-- The lambda's arity. -/
def arity (f : Callable α) : Nat := f.lambda.arity

/-- Arguments still needed before the body runs. -/
def need (f : Callable α) : Nat := f.arity - f.bound.length

/-- Whether arguments are bound. -/
def isPartial (f : Callable α) : Bool := !f.bound.isEmpty

/-- The same closure with no bound arguments. -/
def unbound (f : Callable α) : Callable α := { f with bound := [], boundId := 0 }

end Callable

namespace Value

/-- The kind of a value. -/
def kind : Value → ValueKind
  | .int _ => .int
  | .float _ => .float
  | .bool _ => .bool
  | .str _ => .string
  | .unit => .unit
  | .array _ => .array
  | .func _ => .function
  | .thunk _ => .thunk
  | .foreign .. => .foreign

/-- The arity of a value: a function's arity, zero for anything else. -/
def arity : Value → Nat
  | .func f => f.arity
  | _ => 0

/-- The function a value holds, or the fault of applying a non-function. Nothing is forced, so a
memo cell is not callable. -/
def toFunction : Value → Except Fault Fn
  | .func f => .ok f
  | v => .error (.notCallable v.kind)

/-- Whether two functions are equal: the same closure, and no bound arguments on either side or
the same list of them. A function with bound arguments and one without never share their list. -/
def sameFn (f g : Fn) : Bool :=
  f.closure == g.closure &&
    if f.bound.isEmpty || g.bound.isEmpty then f.bound.isEmpty && g.bound.isEmpty else f.boundId == g.boundId

mutual
/-- Equality of values. -/
def same : Value → Value → Bool
  | .int a, .int b => a == b
  | .float a, .float b => a == b
  | .bool a, .bool b => a == b
  | .str a, .str b => a == b
  | .unit, .unit => true
  | .array xs, .array ys => sameItems xs ys
  | .func f, .func g => sameFn f g
  | .thunk a, .thunk b => a == b
  | .foreign a _, .foreign b _ => a == b
  | _, _ => false

/-- Equality of arrays, item by item. -/
def sameItems : List Value → List Value → Bool
  | [], [] => true
  | x :: xs, y :: ys => same x y && sameItems xs ys
  | _, _ => false
end

end Value

end LazyCall
