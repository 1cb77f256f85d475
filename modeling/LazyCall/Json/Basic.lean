import LazyCall.Decimal.Style
import LazyCall.Decimal.Read

/-!
# JSON values

A JSON value as the reader produces it and the writer prints it. A number keeps the kind it was
read as: a non-negative integer below `2 ^ 64`, a negative integer of at least `-2 ^ 63`, or a
double for everything else (a fraction, an exponent, `-0`, or an integer out of those ranges).

The compact writer prints objects with their keys in increasing order and escapes, in strings,
the quote, the backslash and the control characters below U+0020.
-/

namespace LazyCall

/-- A JSON number, by the kind it was read as. -/
inductive Number where
  | unsigned (n : Nat)
  | negative (n : Int)
  | float (x : Float)

/-- A JSON value. An object keeps its members in the order they were written. -/
inductive Json where
  | null
  | bool (b : Bool)
  | num (n : Number)
  | str (s : String)
  | arr (items : List Json)
  | obj (members : List (String × Json))

namespace Json

/-- The JSON integer `n`. -/
def int (n : Int) : Json :=
  if n < 0 then .num (.negative n) else .num (.unsigned n.toNat)

/-- The JSON integer `n`. -/
def nat (n : Nat) : Json :=
  .num (.unsigned n)

/-- The value of the last member named `key` of an object. -/
def get? (j : Json) (key : String) : Option Json :=
  match j with
  | .obj members => (members.reverse.find? (·.1 == key)).map (·.2)
  | _ => none

/-- The distinct member names of an object, in their first order. -/
def keys (j : Json) : List String :=
  match j with
  | .obj members => (members.map (·.1)).eraseDups
  | _ => []

/-- The integer of a number read as an integer that fits in 64 signed bits. -/
def asInt64? : Json → Option Int64
  | .num (.unsigned n) => if n < Nat.pow 2 63 then some (Int64.ofNat n) else none
  | .num (.negative n) => some (Int64.ofInt n)
  | _ => none

/-- The integer of a number read as a non-negative integer. -/
def asWord? : Json → Option Nat
  | .num (.unsigned n) => some n
  | _ => none

/-- The double of any number. -/
def asFloat? : Json → Option Float
  | .num (.unsigned n) => some (Decimal.ofDecimal false n 0)
  | .num (.negative n) => some (Decimal.ofDecimal true n.natAbs 0)
  | .num (.float x) => some x
  | _ => none

/-- The string of a string value. -/
def asString? : Json → Option String
  | .str s => some s
  | _ => none

/-- The flag of a boolean value. -/
def asBool? : Json → Option Bool
  | .bool b => some b
  | _ => none

/-- The items of an array. -/
def asArray? : Json → Option (List Json)
  | .arr items => some items
  | _ => none

end Json

/-! ## Writing -/

/-- Four lowercase hexadecimal digits of a code unit below `0x10000`. -/
def hex4 (n : Nat) : String :=
  let d := Nat.toDigits 16 n
  String.ofList ((List.replicate (4 - d.length) '0' ++ d).map Char.toLower)

/-- How one character of a string is written in JSON. -/
def jsonEscape (c : Char) : String :=
  if c = '"' then "\\\""
  else if c = '\\' then "\\\\"
  else if c = '\n' then "\\n"
  else if c = '\r' then "\\r"
  else if c = '\t' then "\\t"
  else if c = '\x08' then "\\b"
  else if c = '\x0c' then "\\f"
  else if c.toNat < 0x20 then "\\u" ++ hex4 c.toNat
  else String.singleton c

/-- A JSON string literal. -/
def jsonString (s : String) : String :=
  "\"" ++ String.join (s.toList.map jsonEscape) ++ "\""

/-- The text of a number. -/
def Number.text : Number → String
  | .unsigned n => toString n
  | .negative n => toString n
  | .float x => Decimal.Style.compact.write x

/-- Inserts a member into a list sorted by key. -/
def insertMember (m : String × String) : List (String × String) → List (String × String)
  | [] => [m]
  | x :: xs => if m.1 < x.1 then m :: x :: xs else x :: insertMember m xs

namespace Json

mutual
/-- The compact text of a value, object keys in increasing order. When a key occurs twice the
last member counts. -/
def compact : Json → String
  | .null => "null"
  | .bool b => if b then "true" else "false"
  | .num n => n.text
  | .str s => jsonString s
  | .arr items => "[" ++ ",".intercalate (compactItems items) ++ "]"
  | .obj members =>
    let unique := (compactMembers members).foldl (fun acc m => (acc.filter (·.1 != m.1)) ++ [m]) []
    let sorted := unique.foldl (fun acc m => insertMember m acc) []
    "\x7B" ++ ",".intercalate (sorted.map fun (k, t) => jsonString k ++ ":" ++ t) ++ "\x7D"

/-- The compact texts of array items. -/
def compactItems : List Json → List String
  | [] => []
  | j :: js => compact j :: compactItems js

/-- The members of an object with their values written compactly. -/
def compactMembers : List (String × Json) → List (String × String)
  | [] => []
  | (k, j) :: ms => (k, compact j) :: compactMembers ms
end

end Json

end LazyCall
