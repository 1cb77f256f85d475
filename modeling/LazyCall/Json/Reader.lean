import LazyCall.Json.Cursor

/-!
# Reading JSON values

`Json.parse` reads a whole text as one JSON value: blanks may stand around it, and anything else
after it is refused. Arrays and objects are read member by member; a comma must separate them and
none may trail. When an object names a key twice the later member counts (`Json.get?` looks from
the end).
-/

namespace LazyCall.Json

namespace Reader

/-- What comes next in an array: the first character of an item, or `none` at the closing
bracket, which is left for the caller. -/
def itemStart (first : Bool) : Reader (Option Char) := do
  match ← peekToken? with
  | some ']' => pure none
  | some ',' =>
    if first then pure (some ',')
    else do
      bump
      match ← peekToken? with
      | some ']' => failAhead .trailingComma
      | some c => pure (some c)
      | none => failAhead .eofInValue
  | some c => if first then pure (some c) else failAhead .expectedListCommaOrEnd
  | none => failAhead .eofInList

/-- What opens the next member of an object: the first character of its key, or `none` at the
closing brace, which is left for the caller. A member after the first follows a comma. -/
def memberStart (first : Bool) : Reader (Option Char) := do
  match ← peekToken? with
  | some '}' => pure none
  | some ',' =>
    if first then pure (some ',')
    else do
      bump
      match ← peekToken? with
      | some c => pure (some c)
      | none => failAhead .eofInValue
  | some c => if first then pure (some c) else failAhead .expectedObjectCommaOrEnd
  | none => failAhead .eofInObject

/-- What comes next in an object: the key of the next member, read with its colon, or `none` at
the closing brace, which is left for the caller. The key is handed to `key` as soon as it is read,
before the colon. -/
def memberKey {α : Type} (first : Bool) (key : String → Reader α) : Reader (Option α) := do
  match ← memberStart first with
  | none => pure none
  | some '"' => do
    bump
    let k ← string
    let a ← key k
    match ← peekToken? with
    | some ':' => do bump; pure (some a)
    | some _ => failAhead .expectedColon
    | none => failAhead .eofInObject
  | some '}' => failAhead .trailingComma
  | some _ => failAhead .keyNotString

/-- Reads the closing bracket of an array. -/
def closeList : Reader Unit := do
  match ← peekToken? with
  | some ']' => bump
  | some ',' => do
    bump
    match ← peekToken? with
    | some ']' => failAhead .trailingComma
    | _ => failAhead .trailingCharacters
  | some _ => failAhead .trailingCharacters
  | none => failAhead .eofInList

/-- Reads the closing brace of an object. -/
def closeObject : Reader Unit := do
  match ← peekToken? with
  | some '}' => bump
  | some ',' => failAhead .trailingComma
  | some _ => failAhead .trailingCharacters
  | none => failAhead .eofInObject

mutual
/-- Reads a value; `fuel` bounds the nesting. -/
def value : Nat → Reader Json
  | 0 => failHere .eofInValue
  | fuel + 1 => do
    match ← peekToken? with
    | none => failAhead .eofInValue
    | some 'n' => do bump; expectWord ['u', 'l', 'l']; pure .null
    | some 't' => do bump; expectWord ['r', 'u', 'e']; pure (.bool true)
    | some 'f' => do bump; expectWord ['a', 'l', 's', 'e']; pure (.bool false)
    | some '-' => do bump; .num <$> number false
    | some '"' => do bump; .str <$> string
    | some '[' => do
      bump
      let items ← items fuel true []
      closeList
      pure (.arr items)
    | some '{' => do
      bump
      let members ← members fuel true []
      closeObject
      pure (.obj members)
    | some c => if c.isDigit then .num <$> number true else failAhead .expectedValue

/-- Reads the items of an array up to its closing bracket. -/
def items : Nat → Bool → List Json → Reader (List Json)
  | 0, _, acc => pure acc.reverse
  | fuel + 1, first, acc => do
    match ← itemStart first with
    | none => pure acc.reverse
    | some _ =>
      let v ← value fuel
      items fuel false (v :: acc)

/-- Reads the members of an object up to its closing brace. -/
def members : Nat → Bool → List (String × Json) → Reader (List (String × Json))
  | 0, _, acc => pure acc.reverse
  | fuel + 1, first, acc => do
    match ← memberKey first pure with
    | none => pure acc.reverse
    | some k =>
      let v ← value fuel
      members fuel false ((k, v) :: acc)
end

/-- Refuses anything but blanks after the value. -/
def finish : Reader Unit := do
  match ← peekToken? with
  | some _ => failAhead .trailingCharacters
  | none => pure ()

end Reader

/-- Reads a whole text as one JSON value. -/
def parse (s : String) : Except ReadError Json :=
  match (do let v ← Reader.value (4 * s.length + 8); Reader.finish; pure v) (Cursor.start s) with
  | .ok v _ => .ok v
  | .error e _ => .error e

end LazyCall.Json
