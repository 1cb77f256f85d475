import LazyCall.Machine
import LazyCall.Decimal.Style
import LazyCall.Json.Basic

/-!
# The texts of values

Three views of a value in a machine state:

* the display text (`Machine.display`): integers in decimal, doubles in plain style, strings
  between quotes as they are, `()`, `[a, b]`, `<function NAME/ARITY>` (with `[N bound]` when
  arguments are bound), a memo cell as its value once it has one and `<thunk>` before, and
  `<foreign>`;
* the debugging text (`Machine.debug`), which names each variant: `Integer(1)`, `Float(1.0)`,
  `String("a")`, `Array([..])`, `Function(Function { .. })`, `Thunk(Thunk(..))`, and
  `Foreign(Foreign(<ptr>))` with the address already hidden (as `Text.hideAddresses` would);
* the JSON rendering (`Machine.render`), in which nesting below depth 48 is cut to `"<deep>"`.

A memo cell is seen through the machine, so the views follow cells; `fuel` bounds that descent
(values never hold a cell that leads back to itself).
-/

namespace LazyCall

namespace Machine

/-- The display text of a function. -/
def displayFn (f : Fn) : String :=
  let head := "<function " ++ f.name ++ "/" ++ toString f.arity
  if f.bound.isEmpty then head ++ ">" else head ++ " [" ++ toString f.bound.length ++ " bound]>"

/-- The display text of a value. -/
def display (m : Machine) : Nat → Value → String
  | 0, _ => "<thunk>"
  | fuel + 1, v =>
    match v with
    | .int n => toString n.toInt
    | .float x => Decimal.Style.plain.write x
    | .bool b => if b then "true" else "false"
    | .str s => "\"" ++ s ++ "\""
    | .unit => "()"
    | .array items => "[" ++ ", ".intercalate (items.map (display m fuel)) ++ "]"
    | .func f => displayFn f
    | .thunk i =>
      match m.peek? i with
      | some w => display m fuel w
      | none => "<thunk>"
    | .foreign .. => "<foreign>"

mutual
/-- The debugging text of a value. -/
def debug (m : Machine) : Nat → Value → String
  | 0, _ => "Unit"
  | fuel + 1, v =>
    match v with
    | .int n => "Integer(" ++ toString n.toInt ++ ")"
    | .float x => "Float(" ++ Decimal.Style.debug.write x ++ ")"
    | .bool b => "Boolean(" ++ (if b then "true" else "false") ++ ")"
    | .str s => "String(" ++ Text.quote s ++ ")"
    | .unit => "Unit"
    | .array items => "Array([" ++ ", ".intercalate (items.map (debug m fuel)) ++ "])"
    | .func f =>
      "Function(Function \x7B name: " ++ Text.quote f.name ++ ", arity: " ++ toString f.arity ++
        ", bound: " ++ toString f.bound.length ++ " \x7D)"
    | .thunk i => "Thunk(" ++ debugCell m fuel i ++ ")"
    | .foreign .. => "Foreign(Foreign(<ptr>))"

/-- The debugging text of a memo cell. -/
def debugCell (m : Machine) : Nat → Nat → String
  | 0, _ => "Thunk(<evaluating>)"
  | fuel + 1, i =>
    match m.cell i with
    | .pending _ => "Thunk(<unevaluated>)"
    | .running => "Thunk(<evaluating>)"
    | .done v => "Thunk(" ++ debug m fuel v ++ ")"
    | .failed f => "Thunk(<failed: " ++ f.message ++ ">)"
end

/-- The debugging text of a function's closure: its lambda and its environment. -/
def debugClosure (m : Machine) (fuel : Nat) (f : Fn) : String :=
  "Closure \x7B lambda: Lambda(" ++ f.name ++ "/" ++ toString f.arity ++ "), env: Env \x7B values: [" ++
    ", ".intercalate (f.env.map (debug m fuel)) ++ "] \x7D \x7D"

/-- The deepest nesting that rendering shows. -/
def renderDepth : Nat := 48

/-- The JSON rendering of a value at nesting depth `renderDepth - left`. -/
def renderAt (m : Machine) : Nat → Value → Json
  | 0, _ => .str "<deep>"
  | left + 1, v =>
    match v with
    | .int n => .obj [("Int", .int n.toInt)]
    | .float x => .obj [("Float", .str (Decimal.Style.plain.write x))]
    | .bool b => .obj [("Bool", .bool b)]
    | .str s => .obj [("String", .str s)]
    | .unit => .str "Unit"
    | .array items => .obj [("Array", .arr (items.map (renderAt m left)))]
    | .func f =>
      .obj [("Function", .obj [("name", .str f.name), ("arity", .nat f.arity), ("need", .nat f.need),
        ("bound", .arr (f.bound.map (renderAt m left))), ("env", .arr (f.env.map (renderAt m left)))])]
    | .thunk i =>
      match m.peek? i with
      | some w => .obj [("Thunk", .obj [("value", renderAt m left w)])]
      | none => .obj [("Thunk", .obj [("state", .str (debugCell m 2 i))])]
    | .foreign _ tag => .obj [("Foreign", .int tag.toInt)]

/-- The JSON rendering of a value. -/
def render (m : Machine) (v : Value) : Json :=
  renderAt m (renderDepth + 1) v

end Machine

end LazyCall
