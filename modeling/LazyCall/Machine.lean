import LazyCall.Value
import LazyCall.Counters

/-!
# The machine

The state that evaluation works on: the memo cells, the functions that lambdas were built as, a
source of fresh identities, the counters and the events reported so far. `Run` computations change
the machine and may stop with a fault, a panic, or for lack of fuel; a stopped run keeps the
changes it made, as the counters and cells of the runtime do.

A memo cell moves from `pending` to `running` when a force claims it, and from `running` to `done`
or `failed` when its computation ends; it never moves back. `forceCell` is that step, given how to
run a pending computation and how to force the value it gives:

* a `done` cell gives its value and counts a cache hit;
* a `failed` cell gives its fault again and counts nothing;
* a `running` cell is forced from inside its own computation: a cyclic force, counted and
  reported;
* a `pending` cell is claimed, reported and counted, and its computation's value is forced; the
  cell is settled with the outcome, and with `Panicked` when the computation panics.
-/

namespace LazyCall

/-- The scope an expression is evaluated in. -/
structure Scope where
  /-- The arguments of the running body. -/
  args : List Value := []
  /-- The environment captured by the running body's closure. -/
  env : List Value := []
  /-- The running body's own function. -/
  self : Option Fn := none
  /-- The cell of the running self-referring computation. -/
  this : Option Nat := none
  deriving Inhabited

/-- A suspended computation: an expression and the scope it captured. -/
structure Job where
  expr : Expr
  scope : Scope
  deriving Inhabited

/-- The state of a memo cell. -/
inductive Cell where
  /-- Not forced yet. -/
  | pending (job : Job)
  /-- Its computation is running. -/
  | running
  /-- Its computation gave this value. -/
  | done (v : Value)
  /-- Its computation failed with this fault. -/
  | failed (f : Fault)
  deriving Inhabited

/-- The three decisions of the resolver. -/
inductive Decision where
  /-- As many arguments as needed: invoke. -/
  | exact
  /-- Fewer arguments than needed: bind them. -/
  | short
  /-- More arguments than needed: invoke with the first ones and go on with the rest. -/
  | over
  deriving Repr, DecidableEq

/-- Something the runtime reports as it goes. -/
inductive Event where
  /-- A resolver decision, with the function's name and arity, the number of arguments it had
  bound and the number supplied at that turn. -/
  | decided (d : Decision) (name : String) (arity bound supplied : Nat)
  /-- A force claimed a pending cell. -/
  | computing
  /-- A cell was forced from inside its own computation. -/
  | cyclic

/-- Why a run stopped without a value. -/
inductive Abort where
  | fault (f : Fault)
  | panic (message : String)
  /-- The evaluation went deeper than its fuel. -/
  | exhausted

/-- The machine state. -/
structure Machine where
  cells : Array Cell := #[]
  /-- The function each lambda was built as, by the lambda's `home` slot. -/
  homes : Array Fn := #[]
  /-- The next fresh identity. -/
  fresh : Nat := 1
  counters : Counters := {}
  events : Array Event := #[]

/-- Computations on the machine. -/
abbrev Run := EStateM Abort Machine

/-- The state of a cell. -/
def Machine.cell (m : Machine) (i : Nat) : Cell :=
  m.cells.getD i (.failed .panicked)

/-- The value of a cell that holds one. -/
def Machine.peek? (m : Machine) (i : Nat) : Option Value :=
  match m.cell i with
  | .done v => some v
  | _ => none

namespace Run

/-- Stops with a fault. -/
def fault {α : Type} (f : Fault) : Run α := throw (.fault f)

/-- Stops with a body fault with the given message. -/
def failWith {α : Type} (message : String) : Run α := fault (.body (.message message))

/-- Lifts an outcome that may be a fault. -/
def ofExcept {α : Type} : Except Fault α → Run α
  | .ok a => pure a
  | .error f => fault f

/-- Runs `x` and reports how it ended without stopping; the machine keeps its changes. -/
def attempt {α : Type} (x : Run α) : Run (Except Abort α) :=
  fun m => match x m with
    | .ok a m' => .ok (.ok a) m'
    | .error e m' => .ok (.error e) m'

/-- Counts one. -/
def count (c : Counter) : Run Unit :=
  modify fun m => { m with counters := m.counters.bump c }

/-- Reports an event. -/
def emit (e : Event) : Run Unit :=
  modify fun m => { m with events := m.events.push e }

/-- A fresh identity. -/
def freshId : Run Nat :=
  modifyGet fun m => (m.fresh, { m with fresh := m.fresh + 1 })

/-- Makes a memo cell and counts it. -/
def newCell (c : Cell) : Run Nat := do
  count .thunks
  modifyGet fun m => (m.cells.size, { m with cells := m.cells.push c })

/-- Sets the state of a cell. -/
def setCell (i : Nat) (c : Cell) : Run Unit :=
  modify fun m => { m with cells := m.cells.set! i c }

/-- The cell of a value: a memo cell stays itself, anything else becomes a new settled cell. -/
def cellOf : Value → Run Nat
  | .thunk i => pure i
  | v => newCell (.done v)

/-- Records the function a lambda was built as, giving its slot. -/
def addHome (f : Fn) : Run Unit :=
  modify fun m => { m with homes := m.homes.push f }

/-- The function a lambda was built as. -/
def home (slot : Nat) : Run (Option Fn) := do
  pure (← get).homes[slot]?

/-- Forces the cell `i`, running a pending computation with `compute` and forcing the value it
gives with `whnf`. -/
def forceCell (compute : Job → Run Value) (whnf : Value → Run Value) (i : Nat) : Run Value := do
  match (← get).cell i with
  | .done v => do
    count .cacheHits
    pure v
  | .failed f => fault f
  | .running => do
    count .cyclicForces
    emit .cyclic
    fault .cyclicForce
  | .pending job => do
    setCell i .running
    emit .computing
    count .computations
    match ← attempt (do whnf (← compute job)) with
    | .ok v => do
      setCell i (.done v)
      pure v
    | .error (.fault f) => do
      setCell i (.failed f)
      fault f
    | .error e => do
      setCell i (.failed .panicked)
      throw e

end Run

end LazyCall
