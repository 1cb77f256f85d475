import LazyCall.Script.Eval

/-!
# Sessions

A session runs a list of steps on one machine, with one resolver and a growing set of bindings.
A step evaluates an expression at top level (no arguments, no environment, no `self`, no
`this`) and may bind its value to a name; a failed step binds nothing. `forceAll` evaluates
several expressions, turns each value into a memo cell and forces the cells in a pool with one
worker, which forces them in order and stops at the first fault (`sweep` says what a panic
does). `forceThreads` forces one cell from several threads at once: exactly one thread runs a
pending computation and the others see the cell settled, so the threads' outcomes are those of
forcing the cell that many times in a row.

Each step reports how it ended, the counters that moved during it and the events reported during
it.
-/

namespace LazyCall

/-- How a session runs. -/
structure Options where
  /-- The session's resolver. -/
  resolver : Resolver := {}
  /-- Whether `apply` and `eval` use the standard resolver. -/
  free : Bool := false
  /-- Whether step reports list the events. -/
  events : Bool := false
  /-- Whether fault reports carry debugging detail. -/
  faultDetail : Bool := false

/-- A step of a session. -/
inductive Step where
  /-- Evaluates an expression, binding its value to the name if one is given. -/
  | expr (e : Expr) (name : Option String)
  /-- Forces the cells of several values in order, giving the array of their values. -/
  | forceAll (es : List Expr) (name : Option String)
  /-- Forces the cell of a value from several threads at once. -/
  | forceThreads (e : Expr) (threads : Nat)

/-- How a computation ended. -/
inductive Outcome where
  | value (v : Value)
  | fault (f : Fault)
  | panic (message : String)

/-- The outcome of a finished run. -/
def Outcome.ofExcept : Except Abort Value → Outcome
  | .ok v => .value v
  | .error (.fault f) => .fault f
  | .error (.panic m) => .panic m
  | .error .exhausted => .panic "evaluation ran out of fuel"

/-- What a step reports. -/
structure Report where
  /-- How the step ended; for `forceThreads`, how its expression ended. -/
  outcome : Outcome
  /-- For `forceThreads` whose expression gave a value, the outcome of each thread. -/
  threads : Option (List Outcome) := none
  /-- The counters that moved, with how far. -/
  moved : List (String × Nat)
  /-- The events reported, in order; none for `forceThreads`, whose threads report events in no
  fixed order. -/
  events : Option (List Event)
  /-- The machine after the step, which the report's values are seen in. -/
  machine : Machine

/-- The evaluation fuel of a top-level expression. -/
def stepFuel : Nat := 1000000

/-- The number of workers in the pool that forces a list of cells. -/
def poolWorkers : Nat := 1

/-- What forcing part of a list of cells left behind: the values forced, the first fault, which
stops the rest of the list, and the first panic, which surfaces once the pool has unwound. -/
structure Sweep where
  /-- The values forced, in list order. -/
  values : List Value := []
  /-- The fault that stopped the sweep. -/
  fault : Option Fault := none
  /-- The panic to raise once the sweep is over. -/
  abort : Option Abort := none

/-- Forces cells one after another until one fails. -/
def forceInOrder (cx : Context) : List Nat → Run Sweep
  | [] => pure {}
  | i :: is => do
    match ← Run.attempt (force cx stepFuel (.thunk i)) with
    | .ok v =>
      let s ← forceInOrder cx is
      pure { s with values := v :: s.values }
    | .error (.fault f) => pure { fault := some f }
    | .error a => pure { abort := some a }

/-- The halvings left to the two halves of a part of `size` cells, if the pool halves it: a part
of two or more cells is halved while it has halvings left, and a part taken up again after a panic
beside it gets at least as many halvings as the pool has workers. -/
def halving (size halves : Nat) (resumed : Bool) : Option Nat :=
  if size < 2 then none
  else if resumed then some (max poolWorkers (halves / 2))
  else if 0 < halves then some (halves / 2)
  else none

/-- Only a part of two or more cells is halved. -/
theorem two_le_of_halving {size halves : Nat} {resumed : Bool} {k : Nat}
    (h : halving size halves resumed = some k) : 2 ≤ size := by
  unfold halving at h
  split at h
  · simp at h
  · omega

/-- Forces a list of cells as the pool does. The pool halves the list as `halving` says and
forces each piece in order, the first half before the second. A fault stops every piece not yet
begun. A panic stops its own piece, but the second half of every halving whose first half
panicked still runs before the panic surfaces. -/
def sweep (cx : Context) (halves : Nat) (resumed stopped : Bool) (cells : List Nat) : Run Sweep :=
  if stopped then pure {} else
  match h : halving cells.length halves resumed with
  | none => forceInOrder cx cells
  | some k => do
    have : 2 ≤ cells.length := two_le_of_halving h
    let left ← sweep cx k false false (cells.take (cells.length / 2))
    match left.abort with
    | some a =>
      let right ← sweep cx k true left.fault.isSome (cells.drop (cells.length / 2))
      pure { fault := left.fault <|> right.fault, abort := some a }
    | none =>
      let right ← sweep cx k false left.fault.isSome (cells.drop (cells.length / 2))
      pure { values := left.values ++ right.values, fault := left.fault <|> right.fault,
             abort := right.abort }
termination_by cells.length
decreasing_by
  all_goals
    simp only [List.length_take, List.length_drop]
    omega

/-- Forces a list of cells in the pool, giving their values, or the panic or else the fault that
stopped it. -/
def forceCells (cx : Context) (cells : List Nat) : Run (List Value) := do
  let s ← sweep cx poolWorkers false false cells
  match s.abort, s.fault with
  | some a, _ => throw a
  | none, some f => throw (.fault f)
  | none, none => pure s.values

/-- Forces one cell `n` times in a row, keeping each outcome. -/
def forceRepeatedly (cx : Context) (i : Nat) : Nat → Run (List Outcome)
  | 0 => pure []
  | n + 1 => do
    let r ← Run.attempt (force cx stepFuel (.thunk i))
    let rs ← forceRepeatedly cx i n
    pure (Outcome.ofExcept r :: rs)

/-- The session state between steps: the machine and the bindings, the latest first. -/
structure Session where
  machine : Machine := {}
  bindings : List (String × Value) := []

namespace Session

/-- The evaluation context of the session. -/
def context (opts : Options) (s : Session) : Context :=
  { resolver := opts.resolver, free := opts.free, bindings := s.bindings }

/-- Binds a name, when one is given, to the value of a successful step. -/
def bindResult (s : Session) (name : Option String) : Except Abort Value → List (String × Value)
  | .ok v => match name with
    | some n => (n, v) :: s.bindings
    | none => s.bindings
  | .error _ => s.bindings

/-- Runs one step. -/
def step (opts : Options) (s : Session) (st : Step) : Session × Report :=
  let cx := s.context opts
  let before := s.machine.counters
  let start := { s.machine with events := #[] }
  let finish (r : Except Abort Value) (threads : Option (List Outcome)) (m : Machine)
      (bindings : List (String × Value)) : Session × Report :=
    ({ machine := m, bindings },
      { outcome := .ofExcept r, threads, moved := before.moved m.counters,
        events := if st matches .forceThreads .. then none else some m.events.toList, machine := m })
  match st with
  | .expr e name =>
    match (Run.attempt (eval cx stepFuel e {})) start with
    | .ok r m => finish r none m (s.bindResult name r)
    | .error _ m => finish (.error .exhausted) none m s.bindings
  | .forceAll es name =>
    let run : Run Value := do
      let vs ← evalAll cx stepFuel es {}
      let cells ← vs.mapM Run.cellOf
      .array <$> forceCells cx cells
    match (Run.attempt run) start with
    | .ok r m => finish r none m (s.bindResult name r)
    | .error _ m => finish (.error .exhausted) none m s.bindings
  | .forceThreads e n =>
    let run : Run (Except Abort (List Outcome)) := do
      match ← Run.attempt (eval cx stepFuel e {}) with
      | .ok v => do
        let i ← Run.cellOf v
        .ok <$> forceRepeatedly cx i n
      | .error err => pure (.error err)
    match run start with
    | .ok (.ok outcomes) m => finish (.ok .unit) (some outcomes) m s.bindings
    | .ok (.error err) m => finish (.error err) none m s.bindings
    | .error _ m => finish (.error .exhausted) none m s.bindings

/-- Runs steps in order. -/
def steps (opts : Options) : Session → List Step → List Report
  | _, [] => []
  | s, st :: sts =>
    let (s', r) := step opts s st
    r :: steps opts s' sts

end Session

end LazyCall
