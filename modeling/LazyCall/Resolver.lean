import LazyCall.Machine
import LazyCall.Limits

/-!
# The resolver

Applying a function to a list of arguments. The resolver looks at how many arguments the function
still needs and decides, turn by turn:

1. a function whose arity is above the arity limit is refused (`ArityOutOfRange`), at every turn
   and before anything else of that turn;
2. exactly as many arguments as needed: the closure is invoked with the bound arguments followed by
   the supplied ones, and the result is the cell of the body's value;
3. fewer: the arguments are bound, giving a new function (the same function when none are
   supplied);
4. more: the chain step counter, a 64-bit word that wraps, goes up by one, and a count past the
   chain limit is refused (`ChainTooDeep`); otherwise the closure is invoked with the arguments it
   needs, the resulting cell is forced, its value must be a function, and the next turn applies it
   to the rest. At the largest limit the counter wraps before it can pass the limit, so nothing
   stops the chain but the fuel of turns that stands in for a run that does not end.

Arguments are consumed from the left and never forced. With tracing on, each decision is reported
before it takes effect. The invocation of a closure and the forcing of a cell belong to the
evaluator, which hands them to the resolver as a `Host`.
-/

namespace LazyCall

/-- The resolver: the limits it applies and whether it reports its decisions. -/
structure Resolver where
  limits : Limits := {}
  trace : Bool := false

/-- What the evaluator lends the resolver: invoking a closure with exactly the arguments it takes
(giving the cell of the body's value), and forcing a value. -/
structure Host where
  invoke : Fn → List Value → Run Nat
  force : Value → Run Value

/-- The outcome of an application: the cell of a body's value, or a function still waiting for
arguments. -/
inductive Applied where
  | cell (i : Nat)
  | curried (f : Fn)

/-- The outcome as a value. -/
def Applied.toValue : Applied → Value
  | .cell i => .thunk i
  | .curried f => .func f

namespace Resolver

/-- The resolver that free application uses: default limits, no tracing. -/
def standard : Resolver := {}

/-- Binds arguments to a function. Binding none gives the function itself; binding some gives a
new function with a fresh list of bound arguments. -/
def bindArgs (f : Fn) (args : List Value) : Run Fn :=
  if args.isEmpty then pure f
  else do
    Run.count .functions
    let id ← Run.freshId
    pure { f with bound := f.bound ++ args, boundId := id }

/-- Reports a decision when tracing. -/
def report (r : Resolver) (d : Decision) (f : Fn) (supplied : Nat) : Run Unit :=
  if r.trace then Run.emit (.decided d f.name f.arity f.bound.length supplied) else pure ()

/-- The over-application turns an application may take before it stops for lack of fuel: one more
than the step counter can count, so that below the largest chain limit the limit is passed first. -/
def chainFuel : Nat := Nat.pow 2 64

/-- The application loop. `steps` counts the over-application turns taken, in a 64-bit word that
wraps; `fuel` is the number of turns that may still run, and `supplied` the number of arguments. -/
def loop (r : Resolver) (h : Host) : Nat → UInt64 → Fn → List Value → Nat → Run Applied
  | fuel, steps, f, args, supplied =>
    if f.arity > r.limits.maxArity then Run.fault (.arityOutOfRange f.arity r.limits.maxArity)
    else if supplied = f.need then do
      r.report .exact f supplied
      .cell <$> h.invoke f (f.bound ++ args)
    else if supplied < f.need then do
      r.report .short f supplied
      Run.count .partialApplications
      .curried <$> bindArgs f args
    else if (steps + 1).toNat > r.limits.maxChainDepth then
      Run.fault (.chainTooDeep r.limits.maxChainDepth)
    else
      match fuel with
      | 0 => throw .exhausted
      | fuel + 1 => do
        r.report .over f supplied
        Run.count .overApplications
        let c ← h.invoke f (f.bound ++ args.take f.need)
        let v ← h.force (.thunk c)
        let g ← Run.ofExcept v.toFunction
        loop r h fuel (steps + 1) g (args.drop f.need) (supplied - f.need)

/-- Applies a function to arguments, with no step counted yet. -/
def applyFunction (r : Resolver) (h : Host) (f : Fn) (args : List Value) : Run Applied :=
  r.loop h chainFuel 0 f args args.length

/-- Applies a value to arguments: the value is forced and must be a function. -/
def apply (r : Resolver) (h : Host) (callee : Value) (args : List Value) : Run Applied := do
  let v ← h.force callee
  let f ← Run.ofExcept v.toFunction
  r.applyFunction h f args

/-- Applies a value to arguments and forces the outcome. -/
def eval (r : Resolver) (h : Host) (callee : Value) (args : List Value) : Run Value := do
  match ← r.apply h callee args with
  | .cell i => h.force (.thunk i)
  | .curried f => pure (.func f)

end Resolver

end LazyCall
