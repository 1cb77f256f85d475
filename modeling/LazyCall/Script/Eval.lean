import LazyCall.Resolver
import LazyCall.Show
import LazyCall.Numeral
import LazyCall.Text.Address

/-!
# Evaluating scripts

`eval` runs an expression in a scope on the machine. Operands are evaluated from left to right.
Every application goes through the resolver, every memo cell through `Run.forceCell`, and every
body runs through `invoke`, which checks the argument count against the lambda's arity, counts the
invocation, runs the body with the arguments, the closure's environment and the lambda's own
function, and turns the body's value into a cell.

Evaluation is bounded by `fuel`: each nested evaluation, force or invocation takes one unit (the
operands of one expression share their parent's), and a run that uses it all stops as
`exhausted`. The resolver's chain limit bounds its own loop.
-/

namespace LazyCall

/-- What a session provides to evaluation. -/
structure Context where
  /-- The session's resolver. -/
  resolver : Resolver := {}
  /-- Whether `apply` and `eval` use the standard resolver instead. -/
  free : Bool := false
  /-- The current bindings, the latest first. -/
  bindings : List (String × Value) := []

namespace Context

/-- The resolver that `apply` and `eval` use. -/
def applier (cx : Context) : Resolver :=
  if cx.free then Resolver.standard else cx.resolver

/-- The current binding of a name. -/
def lookup (cx : Context) (name : String) : Option Value :=
  (cx.bindings.find? (·.1 == name)).map (·.2)

end Context

/-- How deep the texts of a value follow nested values and cells. -/
def viewFuel : Nat := 1000000

/-- The function a value holds, or a body fault naming the kind found. -/
def needFn (v : Value) : Run Fn :=
  match v with
  | .func f => pure f
  | _ => Run.failWith ("expected Function, got " ++ v.kind.name)

/-- Checked integer arithmetic. -/
def Arith.onInts (op : Arith) (a b : Int64) : Option Int64 :=
  let r : Int := match op with
    | .add => a.toInt + b.toInt
    | .sub => a.toInt - b.toInt
    | .mul => a.toInt * b.toInt
  if -Int.pow 2 63 ≤ r ∧ r < Int.pow 2 63 then some (Int64.ofInt r) else none

/-- Double arithmetic. -/
def Arith.onFloats (op : Arith) (a b : Float) : Float :=
  match op with
  | .add => a + b
  | .sub => a - b
  | .mul => a * b

/-- Arithmetic on two forced values. -/
def Arith.onValues (op : Arith) : Value → Value → Run Value
  | .int a, .int b =>
    match op.onInts a b with
    | some r => pure (.int r)
    | none => Run.failWith "integer overflow"
  | .float a, .float b => pure (.float (op.onFloats a b))
  | a, b => Run.failWith ("cannot " ++ op.name ++ " " ++ a.kind.name ++ " and " ++ b.kind.name)

/-- Comparison of two forced values. -/
def lessValues : Value → Value → Run Value
  | .int a, .int b => pure (.bool (decide (a.toInt < b.toInt)))
  | .float a, .float b => pure (.bool (decide (a < b)))
  | a, b => Run.failWith ("cannot lt " ++ a.kind.name ++ " and " ++ b.kind.name)

/-- Indexing of two forced values. -/
def indexValues : Value → Value → Run Value
  | .array items, .int k =>
    if 0 ≤ k.toInt ∧ k.toInt < items.length then pure (items.getD k.toInt.toNat .unit)
    else Run.failWith ("index " ++ toString k.toInt ++ " out of range")
  | a, b => Run.failWith ("cannot index " ++ a.kind.name ++ " with " ++ b.kind.name)

/-- A new function for a lambda: a fresh closure over `env`, recorded as the lambda's own. -/
def buildFunction (name : String) (arity : Nat) (body : Expr) (env : List Value) : Run Value := do
  let slot := (← get).homes.size
  let closure ← Run.freshId
  let f : Fn := { lambda := { name, arity, body, home := slot }, env, closure, bound := [], boundId := 0 }
  Run.addHome f
  Run.count .closures
  Run.count .functions
  pure (.func f)

/-- The function that an `applyTo` target hands to the resolver. -/
def targetFunction (t : Target) (v : Value) : Run Fn :=
  match t with
  | .value => Run.ofExcept v.toFunction
  | .function => needFn v
  | .closure => do
    let f ← needFn v
    Run.count .functions
    let closure ← Run.freshId
    pure { f.unbound with closure }
  | .lambda => do
    let f ← needFn v
    Run.count .closures
    Run.count .functions
    let closure ← Run.freshId
    pure { f.unbound with env := [], closure }

mutual
/-- Evaluates an expression in a scope. -/
def eval (cx : Context) : Nat → Expr → Scope → Run Value
  | 0, _, _ => throw .exhausted
  | fuel + 1, e, s =>
    match e with
    | .int n => pure (.int n)
    | .float x => pure (.float x)
    | .bool b => pure (.bool b)
    | .str t => pure (.str t)
    | .unit => pure .unit
    | .array items => .array <$> items.mapM (eval cx fuel · s)
    | .foreign tag => do
      let id ← Run.freshId
      pure (.foreign id tag)
    | .arg i =>
      match s.args[i]? with
      | some v => pure v
      | none => Run.failWith ("argument " ++ toString i ++ " out of range")
    | .envSlot i =>
      match s.env[i]? with
      | some v => pure v
      | none => Run.failWith ("env slot " ++ toString i ++ " out of range")
    | .var name =>
      match cx.lookup name with
      | some v => pure v
      | none => Run.failWith ("unbound variable " ++ name)
    | .self =>
      match s.self with
      | some f => pure (.func f)
      | none => Run.failWith "self used outside a lambda body"
    | .this =>
      match s.this with
      | some i => pure (.thunk i)
      | none => Run.failWith "this used outside lazy_self"
    | .lambda name arity env body => do
      let vs ← match env with
        | none => pure []
        | some es => es.mapM (eval cx fuel · s)
      if arity > maxSupportedArity then Run.fault (.arityOutOfRange arity maxSupportedArity)
      else
        Run.count .lambdas
        buildFunction name arity body vs
    | .apply callee args => do
      let f ← eval cx fuel callee s
      let vs ← args.mapM (eval cx fuel · s)
      Applied.toValue <$> cx.applier.apply (host cx fuel) f vs
    | .eval callee args => do
      let f ← eval cx fuel callee s
      let vs ← args.mapM (eval cx fuel · s)
      cx.applier.eval (host cx fuel) f vs
    | .applied callee args => do
      let f ← eval cx fuel callee s
      let vs ← args.mapM (eval cx fuel · s)
      match ← cx.resolver.apply (host cx fuel) f vs with
      | .curried g => pure (.array [.str "partial", .func g])
      | .cell i => pure (.array [.str "thunk", .thunk i])
    | .applyTo target callee args => do
      let v ← eval cx fuel callee s
      let vs ← args.mapM (eval cx fuel · s)
      let f ← targetFunction target v
      Applied.toValue <$> cx.resolver.applyFunction (host cx fuel) f vs
    | .invoke callee args => do
      let v ← eval cx fuel callee s
      let vs ← args.mapM (eval cx fuel · s)
      let f ← needFn v
      .thunk <$> invoke cx fuel f vs
    | .force e => do force cx fuel (← eval cx fuel e s)
    | .delay e => .thunk <$> Run.newCell (.pending ⟨e, s⟩)
    | .delaySelf e => do
      let i := (← get).cells.size
      .thunk <$> Run.newCell (.pending ⟨e, { s with this := some i }⟩)
    | .ready e => do .thunk <$> Run.cellOf (← eval cx fuel e s)
    | .fail message => Run.failWith message
    | .panic message => throw (.panic message)
    | .arith op a b => do
      let x ← force cx fuel (← eval cx fuel a s)
      let y ← force cx fuel (← eval cx fuel b s)
      op.onValues x y
    | .less a b => do
      let x ← force cx fuel (← eval cx fuel a s)
      let y ← force cx fuel (← eval cx fuel b s)
      lessValues x y
    | .same a b => do
      let x ← eval cx fuel a s
      let y ← eval cx fuel b s
      pure (.bool (x.same y))
    | .cond c t f => do
      match ← force cx fuel (← eval cx fuel c s) with
      | .bool true => eval cx fuel t s
      | .bool false => eval cx fuel f s
      | v => Run.failWith ("expected Bool, got " ++ v.kind.name)
    | .seq es => do pure ((← es.mapM (eval cx fuel · s)).getLastD .unit)
    | .look l e => do
      let v ← eval cx fuel e s
      match l with
      | .kind => pure (.str v.kind.name)
      | .display => pure (.str ((← get).display viewFuel v))
      | .debug => pure (.str (Text.hideAddresses ((← get).debug viewFuel v)))
      | .arity => pure (.int (Int64.ofNat v.arity))
      | .asInteger =>
        match v with
        | .int n => pure (.array [.int n])
        | _ => pure (.array [])
      | .toFunction => .func <$> Run.ofExcept v.toFunction
    | .cellLook l e => do
      match ← eval cx fuel e s with
      | .thunk i =>
        let m ← get
        match l with
        | .isEvaluated => pure (.bool (m.peek? i).isSome)
        | .peek => pure (.array (m.peek? i).toList)
      | v => Run.failWith ("expected Thunk, got " ++ v.kind.name)
    | .part p e => do
      let f ← needFn (← eval cx fuel e s)
      match p with
      | .need => pure (.int (Int64.ofNat f.need))
      | .bound => pure (.array f.bound)
      | .name => pure (.str f.name)
      | .env => pure (.array f.env)
      | .isPartial => pure (.bool f.isPartial)
      | .envLen => pure (.int (Int64.ofNat f.env.length))
      | .envIsEmpty => pure (.bool f.env.isEmpty)
      | .debugClosure => pure (.str (Text.hideAddresses ((← get).debugClosure viewFuel f)))
    | .length e => do
      match ← force cx fuel (← eval cx fuel e s) with
      | .array items => pure (.int (Int64.ofNat items.length))
      | v => Run.failWith ("expected Array, got " ++ v.kind.name)
    | .index a i => do
      let x ← force cx fuel (← eval cx fuel a s)
      let y ← force cx fuel (← eval cx fuel i s)
      indexValues x y
    | .parseInt e => do
      match ← force cx fuel (← eval cx fuel e s) with
      | .str t =>
        match readInt64 t with
        | .ok n => pure (.int n)
        | .error err => Run.fault (.body (.intLiteral err))
      | v => Run.failWith ("expected String, got " ++ v.kind.name)
    | .limits =>
      pure (.array [.int (Int64.ofNat cx.resolver.limits.maxArity),
        .int (Int64.ofNat cx.resolver.limits.maxChainDepth)])
    | .sleep _ => pure .unit

/-- Forces a value: a memo cell to the value its computation gives, anything else to itself. -/
def force (cx : Context) : Nat → Value → Run Value
  | 0, _ => throw .exhausted
  | fuel + 1, v =>
    match v with
    | .thunk i => Run.forceCell (fun job => eval cx fuel job.expr job.scope) (force cx fuel) i
    | v => pure v

/-- Invokes a function's closure with exactly the arguments its lambda takes, ignoring bound
arguments, and gives the cell of the body's value. -/
def invoke (cx : Context) : Nat → Fn → List Value → Run Nat
  | 0, _, _ => throw .exhausted
  | fuel + 1, f, args => do
    if args.length ≠ f.arity then Run.fault (.arityMismatch f.name f.arity args.length)
    else
      Run.count .invocations
      let self ← Run.home f.lambda.home
      let v ← eval cx fuel f.lambda.body { args, env := f.env, self, this := none }
      Run.cellOf v

/-- The evaluator's part of application, at the given fuel. -/
def host (cx : Context) : Nat → Host
  | 0 => { invoke := fun _ _ => throw .exhausted, force := fun _ => throw .exhausted }
  | fuel + 1 => { invoke := invoke cx fuel, force := force cx fuel }
end

/-- Evaluates expressions in order, each with the same fuel. -/
def evalAll (cx : Context) (fuel : Nat) (es : List Expr) (s : Scope) : Run (List Value) :=
  es.mapM (eval cx fuel · s)

end LazyCall
