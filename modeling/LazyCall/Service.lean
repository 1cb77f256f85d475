import LazyCall.Session
import LazyCall.Script.Decode
import LazyCall.Json.Reader
import LazyCall.Limits.Text
import LazyCall.Limits.Environment

/-!
# The request service

The runtime answers requests, one JSON object per line, with one JSON object per line. A request
names its operation in `op`: `run` runs a session of steps; `config_json`, `config_env`,
`config_validate` and `config_default` read, check or show limits; `fault` describes one fault;
`stats_json` prints counters. A request that is not such an object, or that does not follow its
operation's form, is answered with `{"error":"BadInput"}`; a session is checked whole before any
step runs.
-/

namespace LazyCall

/-- A request. -/
inductive Request where
  | run (opts : Options) (steps : List Step)
  | limitsText (source : String)
  | limitsEnv (arity depth : Option String)
  | limitsCheck (l : Limits)
  | limitsDefault
  | describe (f : Fault) (detail : Bool)
  | countersText (c : Counters)

namespace Request

/-- The nesting bound for reading requests. -/
def syntaxFuel : Nat := 1000000

/-- An optional flag, set only by the member `true`: anything else, or nothing, leaves it off. -/
def flag (j : Json) (key : String) : Bool :=
  j.get? key matches some (.bool true)

/-- An optional step name. -/
def name? (j : Json) : Option (Option String) :=
  match j.get? "let" with
  | none => some none
  | some n => some <$> n.asString?

/-- The largest number of threads of `force_threads`. -/
def maxThreads : Nat := 16

/-- Reads a step. -/
def stepOfJson? (j : Json) : Option Step := do
  if let some e := j.get? "expr" then
    if !j.onlyKeys ["expr", "let"] then none
    pure (.expr (← Expr.ofJson? syntaxFuel e) (← name? j))
  else if let some es := j.get? "force_all" then
    if !j.onlyKeys ["force_all", "let"] then none
    pure (.forceAll (← Expr.listOfJson? syntaxFuel (← es.asArray?)) (← name? j))
  else if let some e := j.get? "force_threads" then
    if !j.onlyKeys ["force_threads", "threads"] then none
    let n ← match j.get? "threads" with
      | none => some 2
      | some t => t.asWord?
    if n < 1 ∨ n > maxThreads then none
    pure (.forceThreads (← Expr.ofJson? syntaxFuel e) n)
  else none

/-- Reads the limits of a session: an object with optional word members. -/
def limitsOfJson? (j : Json) : Option Limits := do
  if !(j matches .obj _) then none
  if !j.onlyKeys ["max_arity", "max_chain_depth"] then none
  let a ← match j.get? "max_arity" with
    | none => some maxSupportedArity
    | some x => x.asWord?
  let d ← match j.get? "max_chain_depth" with
    | none => some 10000
    | some x => x.asWord?
  pure { maxArity := a, maxChainDepth := d }

/-- Reads a session request. -/
def runOfJson? (j : Json) : Option Request := do
  let steps ← (← j.get? "steps").asArray?
  let steps ← steps.mapM stepOfJson?
  let limits ← match j.get? "config" with
    | none => some {}
    | some c => limitsOfJson? c
  let opts : Options :=
    { resolver := { limits, trace := flag j "trace" }, free := flag j "free",
      events := flag j "events", faultDetail := flag j "fault_debug" }
  pure (.run opts steps)

/-- The kinds that a `NotCallable` fault can name. -/
def kindOfName? : String → Option ValueKind
  | "Int" => some .int
  | "Float" => some .float
  | "Bool" => some .bool
  | "String" => some .string
  | "Unit" => some .unit
  | "Array" => some .array
  | "Thunk" => some .thunk
  | "Foreign" => some .foreign
  | _ => none

/-- A required word member. -/
def word? (j : Json) (key : String) : Option Nat := do
  (← j.get? key).asWord?

/-- A required string member. -/
def text? (j : Json) (key : String) : Option String := do
  (← j.get? key).asString?

/-- Reads a fault description request. -/
def faultOfJson? (j : Json) : Option Fault := do
  match ← text? j "kind" with
  | "ArityMismatch" => pure (.arityMismatch (← text? j "name") (← word? j "expected") (← word? j "got"))
  | "NotCallable" => pure (.notCallable (← kindOfName? (← text? j "type")))
  | "ArityOutOfRange" => pure (.arityOutOfRange (← word? j "arity") (← word? j "max"))
  | "ChainTooDeep" => pure (.chainTooDeep (← word? j "limit"))
  | "CyclicForce" => pure .cyclicForce
  | "Panicked" => pure .panicked
  | "Body" => pure (.body (.message (← text? j "message")))
  | "ParseInt" =>
    match readInt64 (← text? j "text") with
    | .ok _ => none
    | .error e => pure (.body (.intLiteral e))
  | _ => none

/-- An environment variable's setting: a string without NUL, or nothing. -/
def setting? (j : Json) (key : String) : Option (Option String) :=
  match j.get? key with
  | none => some none
  | some .null => some none
  | some (.str s) => if s.toList.contains '\x00' then none else some (some s)
  | some _ => none

/-- Reads a request. -/
def ofJson? (j : Json) : Option Request := do
  if !(j matches .obj _) then none
  match ← text? j "op" with
  | "run" => runOfJson? j
  | "config_json" => pure (.limitsText (← text? j "source"))
  | "config_env" => pure (.limitsEnv (← setting? j "max_arity") (← setting? j "max_chain_depth"))
  | "config_validate" => do
    let maxArity ← word? j "max_arity"
    let maxChainDepth ← word? j "max_chain_depth"
    pure (.limitsCheck { maxArity, maxChainDepth })
  | "config_default" => pure .limitsDefault
  | "fault" => pure (.describe (← faultOfJson? j) (flag j "debug"))
  | "stats_json" => do
    let value (c : Counter) : Option Nat := match j.get? c.name with
      | none => some 0
      | some x => x.asWord?
    let named ← Counter.all.mapM fun c => (c, ·) <$> value c
    pure (.countersText (Counters.ofNamed fun c => ((named.find? (·.1 == c)).map (·.2)).getD 0))
  | _ => none

end Request

/-! ## Answers -/

namespace Answer

/-- The answer to a request that does not follow the protocol. -/
def badInput : Json := .obj [("error", .str "BadInput")]

/-- The members that describe a fault. -/
def faultMembers (detail : Bool) (f : Fault) : List (String × Json) :=
  [("error", .str f.kindName), ("message", .str f.message), ("code", .str f.code),
    ("title", .str f.title), ("internal", .bool f.internal), ("render", .str f.render)] ++
  (if detail then
    [("debug", .str f.debug), ("downcast", match f.carried with
      | some n => .str n
      | none => .null)]
  else [])

/-- The members that describe an outcome. -/
def outcomeMembers (detail : Bool) (m : Machine) : Outcome → List (String × Json)
  | .value v => [("value", m.render v), ("show", .str (m.display viewFuel v))]
  | .fault f => faultMembers detail f
  | .panic message => [("error", .str "Panic"), ("message", .str message)]

/-- The JSON form of an event. -/
def event : Event → Json
  | .decided d name arity bound supplied =>
    let message := match d with
      | .exact => "exact application"
      | .short => "partial application"
      | .over => "over application"
    .obj [("level", .str "TRACE"), ("message", .str message), ("function", .str name),
      ("arity", .nat arity), ("bound", .nat bound), ("supplied", .nat supplied)]
  | .computing => .obj [("level", .str "TRACE"), ("message", .str "computing thunk")]
  | .cyclic => .obj [("level", .str "DEBUG"), ("message", .str "cyclic force detected")]

/-- Inserts a text into a list in increasing order. -/
def insertSorted (x : Json × String) : List (Json × String) → List (Json × String)
  | [] => [x]
  | y :: ys => if x.2 < y.2 ∨ x.2 = y.2 then x :: y :: ys else y :: insertSorted x ys

/-- Sorts JSON values by their compact text. -/
def sortByText (js : List Json) : List Json :=
  ((js.map fun j => (j, j.compact)).foldr insertSorted []).map (·.1)

/-- The answer of one step. -/
def step (opts : Options) (r : Report) : Json :=
  let stats := ("stats", Json.obj (r.moved.map fun (k, n) => (k, .nat n)))
  match r.threads with
  | some outcomes =>
    .obj [("results", .arr (sortByText (outcomes.map fun o =>
      .obj (outcomeMembers opts.faultDetail r.machine o)))), stats]
  | none =>
    let events := match r.events with
      | some es => if opts.events then [("events", Json.arr (es.map event))] else []
      | none => []
    .obj (outcomeMembers opts.faultDetail r.machine r.outcome ++ [stats] ++ events)

/-- The answer showing a configuration of limits. -/
def limits (l : Limits) : Json :=
  .obj [("config", .obj [("max_arity", .nat l.maxArity), ("max_chain_depth", .nat l.maxChainDepth),
    ("json", .str l.jsonText)])]

/-- The answer of a configuration request. -/
def limitsResult : Except LimitsError Limits → Json
  | .ok l => limits l
  | .error e => .obj [("error", .str e.kindName), ("message", .str e.message)]

end Answer

/-- Answers a request. -/
def Request.answer : Request → Json
  | .run opts steps =>
    let reports := Session.steps opts {} steps
    .obj [("steps", .arr (reports.map (Answer.step opts)))]
  | .limitsText source => Answer.limitsResult (Limits.ofJsonText source)
  | .limitsEnv arity depth => Answer.limitsResult (Limits.ofVariables arity depth)
  | .limitsCheck l => Answer.limitsResult l.validate
  | .limitsDefault => Answer.limits {}
  | .describe f detail => .obj (Answer.faultMembers detail f)
  | .countersText c => .obj [("json", .str c.pretty)]

/-- Answers one request line. -/
def respond (line : String) : String :=
  match Json.parse line with
  | .error _ => Answer.badInput.compact
  | .ok j =>
    match Request.ofJson? j with
    | none => Answer.badInput.compact
    | some r => r.answer.compact

end LazyCall
