/-!
# Script expressions

The small expression language that bodies of lambdas and computations of memo cells are written
in. An expression is evaluated in a scope (the arguments and captured environment of the running
body, its own function, the cell of a self-referring computation) and may build callables, apply
them through the resolver, make and force memo cells, and inspect values.
-/

namespace LazyCall

/-- What `applyTo` hands to the resolver: the value itself, the function it holds (keeping its
bound arguments), a fresh function of that function's closure (dropping the bound arguments), or a
fresh function of its bare lambda (dropping the environment too). -/
inductive Target where
  | value
  | function
  | closure
  | lambda
  deriving Repr, DecidableEq

/-- The checked arithmetic operations. -/
inductive Arith where
  | add
  | sub
  | mul
  deriving Repr, DecidableEq

/-- The name of an arithmetic operation. -/
def Arith.name : Arith → String
  | .add => "add"
  | .sub => "sub"
  | .mul => "mul"

/-- Looks at a value without forcing it. -/
inductive Look where
  /-- The kind name. -/
  | kind
  /-- The display text. -/
  | display
  /-- The debugging text. -/
  | debug
  /-- The arity, zero for a non-function. -/
  | arity
  /-- `[n]` for an integer, `[]` otherwise. -/
  | asInteger
  /-- The value as a function, or a `NotCallable` fault. -/
  | toFunction
  deriving Repr, DecidableEq

/-- Looks into a memo cell without forcing it. -/
inductive CellLook where
  /-- Whether the cell holds its value. -/
  | isEvaluated
  /-- `[v]` when the cell holds `v`, `[]` otherwise. -/
  | peek
  deriving Repr, DecidableEq

/-- Looks into a function. -/
inductive Part where
  /-- The number of arguments still needed. -/
  | need
  /-- The bound arguments. -/
  | bound
  /-- The lambda's name. -/
  | name
  /-- The captured environment. -/
  | env
  /-- Whether arguments are bound. -/
  | isPartial
  /-- The size of the captured environment. -/
  | envLen
  /-- Whether the captured environment is empty. -/
  | envIsEmpty
  /-- The debugging text of the closure. -/
  | debugClosure
  deriving Repr, DecidableEq

/-- Script expressions. -/
inductive Expr where
  | int (n : Int64)
  | float (x : Float)
  | bool (b : Bool)
  | str (s : String)
  | unit
  /-- An array of the values, not forced. -/
  | array (items : List Expr)
  /-- A new foreign payload carrying the tag. -/
  | foreign (tag : Int64)
  /-- An argument of the running body. -/
  | arg (i : Nat)
  /-- A slot of the running body's environment. -/
  | envSlot (i : Nat)
  /-- The current binding of a name. -/
  | var (name : String)
  /-- The running body's own function. -/
  | self
  /-- The cell of the running self-referring computation. -/
  | this
  /-- A callable; with `env`, a closure over the values of those expressions. -/
  | lambda (name : String) (arity : Nat) (env : Option (List Expr)) (body : Expr)
  /-- Application through the resolver, the result unforced. -/
  | apply (callee : Expr) (args : List Expr)
  /-- Application through the resolver, the result forced. -/
  | eval (callee : Expr) (args : List Expr)
  /-- Application through the session's resolver, giving `["partial", f]` or `["thunk", t]`. -/
  | applied (callee : Expr) (args : List Expr)
  /-- Application of a part of the callee through the session's resolver. -/
  | applyTo (target : Target) (callee : Expr) (args : List Expr)
  /-- Invocation of a function's closure with exactly the given arguments. -/
  | invoke (callee : Expr) (args : List Expr)
  | force (e : Expr)
  /-- A new memo cell computing the expression in the current scope. -/
  | delay (e : Expr)
  /-- Like `delay`, with `this` naming the new cell inside the computation. -/
  | delaySelf (e : Expr)
  /-- The value as a memo cell: a cell stays itself, anything else becomes a settled cell. -/
  | ready (e : Expr)
  | fail (message : String)
  | panic (message : String)
  | arith (op : Arith) (a b : Expr)
  | less (a b : Expr)
  /-- Equality of the two values, unforced. -/
  | same (a b : Expr)
  | cond (c t e : Expr)
  /-- All in order, the last value (unit for none). -/
  | seq (es : List Expr)
  | look (l : Look) (e : Expr)
  | cellLook (l : CellLook) (e : Expr)
  | part (p : Part) (e : Expr)
  | length (e : Expr)
  | index (a i : Expr)
  | parseInt (e : Expr)
  /-- The session resolver's limits. -/
  | limits
  /-- Waits, then gives unit. -/
  | sleep (ms : Nat)
  deriving Inhabited

end LazyCall
