import LazyCall.Json.Basic

/-!
# Reading JSON text: the cursor and the tokens

A cursor walks the characters of a JSON text and knows its position: the line (from 1) and the
column, counted in UTF-8 bytes since the last line feed. An error carries the position where it
was found. Most errors are found *here*, after the characters read so far; the others point
*ahead*, one byte past the start of the character that stopped the reader (at the end of the text,
the end itself): the reader takes bytes, so of a character it does not expect it has taken only
the first.

Reading keeps the cursor where it stopped when it fails, so a caller can still look past a
failure, as the reader of a configuration record does.

The tokens: blanks (space, tab, line feed, carriage return), the three words, strings with their
escapes (a surrogate pair in `\u` escapes becomes one character; a lone surrogate is refused) and
numbers. An integer without fraction or exponent that fits is kept as an integer; any other
number becomes a double by one multiplication or division of its integer significand by an exact
power of ten, which is refused when it overflows.
-/

namespace LazyCall.Json

/-- A position in a text: the line, from 1, and the number of UTF-8 bytes before it on its line. -/
structure Pos where
  line : Nat
  column : Nat
  deriving Repr, DecidableEq

/-- What is wrong with a JSON text. -/
inductive Problem where
  | eofInList
  | eofInObject
  | eofInString
  | eofInValue
  | expectedColon
  | expectedListCommaOrEnd
  | expectedObjectCommaOrEnd
  | expectedIdent
  | expectedValue
  | invalidEscape
  | invalidNumber
  | numberOutOfRange
  | controlCharacter
  | keyNotString
  | loneSurrogate
  | trailingComma
  | trailingCharacters
  | unexpectedEndOfEscape
  /-- A problem with what the text means rather than how it is written. -/
  | custom (text : String)
  deriving Repr, DecidableEq

/-- The sentence that describes a problem. -/
def Problem.message : Problem → String
  | .eofInList => "EOF while parsing a list"
  | .eofInObject => "EOF while parsing an object"
  | .eofInString => "EOF while parsing a string"
  | .eofInValue => "EOF while parsing a value"
  | .expectedColon => "expected `:`"
  | .expectedListCommaOrEnd => "expected `,` or `]`"
  | .expectedObjectCommaOrEnd => "expected `,` or `\x7D`"
  | .expectedIdent => "expected ident"
  | .expectedValue => "expected value"
  | .invalidEscape => "invalid escape"
  | .invalidNumber => "invalid number"
  | .numberOutOfRange => "number out of range"
  | .controlCharacter => "control character (\\u0000-\\u001F) found while parsing a string"
  | .keyNotString => "key must be a string"
  | .loneSurrogate => "lone leading surrogate in hex escape"
  | .trailingComma => "trailing comma"
  | .trailingCharacters => "trailing characters"
  | .unexpectedEndOfEscape => "unexpected end of hex escape"
  | .custom text => text

/-- A problem, with the position where it was found once that is known. -/
structure ReadError where
  problem : Problem
  pos : Option Pos
  deriving Repr

/-- The text of an error: its sentence and, when known, its position. -/
def ReadError.text (e : ReadError) : String :=
  match e.pos with
  | some p => e.problem.message ++ " at line " ++ toString p.line ++ " column " ++ toString p.column
  | none => e.problem.message

/-- A position in a text, with the characters still to read and their number. -/
structure Cursor where
  rest : List Char
  pos : Pos
  left : Nat

/-- The cursor at the start of a text. -/
def Cursor.start (s : String) : Cursor :=
  ⟨s.toList, ⟨1, 0⟩, s.length⟩

/-- The position after one character. -/
def Pos.next (p : Pos) (c : Char) : Pos :=
  if c = '\n' then ⟨p.line + 1, 0⟩ else ⟨p.line, p.column + c.utf8Size⟩

/-- The position one byte past the next character: the end itself at the end. -/
def Cursor.ahead (cur : Cursor) : Pos :=
  match cur.rest with
  | [] => cur.pos
  | c :: _ => if c = '\n' then ⟨cur.pos.line + 1, 0⟩ else ⟨cur.pos.line, cur.pos.column + 1⟩

/-- Moves past `n` bytes of `rest` from `p`, with `left` characters still to read; a character
cut in the middle still counts only the bytes passed. -/
def skipBytesFrom : Nat → List Char → Pos → Nat → Cursor
  | 0, rest, p, left => ⟨rest, p, left⟩
  | _ + 1, [], p, _ => ⟨[], p, 0⟩
  | n + 1, c :: r, p, left =>
    if c.utf8Size ≤ n + 1 then skipBytesFrom (n + 1 - c.utf8Size) r (p.next c) (left - 1)
    else ⟨r, ⟨p.line, p.column + n + 1⟩, left - 1⟩

/-- Moves past `n` bytes. -/
def Cursor.skipBytes (n : Nat) (cur : Cursor) : Cursor :=
  skipBytesFrom n cur.rest cur.pos cur.left

/-- The cursor at the end of the text. -/
def Cursor.toEnd (cur : Cursor) : Cursor :=
  ⟨[], cur.rest.foldl Pos.next cur.pos, 0⟩

/-- Reading a JSON text: the state is the cursor, which stays where reading stopped when it
fails. -/
abbrev Reader := EStateM ReadError Cursor

namespace Reader

/-- The next character, if any. -/
def peek? : Reader (Option Char) :=
  fun cur => .ok cur.rest.head? cur

/-- Moves past the next character. -/
def bump : Reader Unit :=
  fun cur => match cur.rest with
    | [] => .ok () cur
    | c :: r => .ok () ⟨r, cur.pos.next c, cur.left - 1⟩

/-- Fails here. -/
def failHere {α : Type} (p : Problem) : Reader α :=
  fun cur => .error ⟨p, some cur.pos⟩ cur

/-- Fails one byte past the next character. -/
def failAhead {α : Type} (p : Problem) : Reader α :=
  fun cur => .error ⟨p, some cur.ahead⟩ cur

/-- Fails with a problem of meaning, whose position is set later. -/
def failUnplaced {α : Type} (p : Problem) : Reader α :=
  fun cur => .error ⟨p, none⟩ cur

/-- Runs `x`, giving an error that has no position yet the current position. -/
def placed {α : Type} (x : Reader α) : Reader α :=
  fun cur => match x cur with
    | .ok a cur' => .ok a cur'
    | .error e cur' => .error { e with pos := e.pos.getD cur'.pos } cur'

/-- Runs `x` and reports its outcome without failing; the cursor stays where `x` left it. -/
def attempt {α : Type} (x : Reader α) : Reader (Except ReadError α) :=
  fun cur => match x cur with
    | .ok a cur' => .ok (.ok a) cur'
    | .error e cur' => .ok (.error e) cur'

/-- Lifts an outcome back into reading. -/
def ofExcept {α : Type} : Except ReadError α → Reader α
  | .ok a => pure a
  | .error e => throw e

/-- Whether a character is a JSON blank. -/
def isBlank (c : Char) : Bool :=
  c = ' ' || c = '\n' || c = '\t' || c = '\r'

/-- Moves past blanks. -/
def skipBlanks : Reader Unit :=
  fun cur =>
    let blanks := cur.rest.takeWhile isBlank
    .ok () ⟨cur.rest.dropWhile isBlank, blanks.foldl Pos.next cur.pos, cur.left - blanks.length⟩

/-- Moves past blanks and looks at the next character. -/
def peekToken? : Reader (Option Char) := do
  skipBlanks
  peek?

/-- Reads the rest of a word whose first letter has been read. -/
def expectWord : List Char → Reader Unit
  | [] => pure ()
  | w :: ws => do
    match ← peek? with
    | none => failHere .eofInValue
    | some c => if c = w then do bump; expectWord ws else failAhead .expectedIdent

/-! ## Strings -/

/-- The value of a hexadecimal digit. -/
def hexValue? (c : Char) : Option Nat :=
  if '0' ≤ c ∧ c ≤ '9' then some (c.toNat - '0'.toNat)
  else if 'a' ≤ c ∧ c ≤ 'f' then some (c.toNat - 'a'.toNat + 10)
  else if 'A' ≤ c ∧ c ≤ 'F' then some (c.toNat - 'A'.toNat + 10)
  else none

/-- Reads the four hexadecimal digits of a `\u` escape. Fewer than four bytes left is the end of
the text; anything but four hexadecimal digits is an invalid escape, found after the four bytes. -/
def hexQuad : Reader Nat :=
  fun cur =>
    let bytes := (cur.rest.take 4).foldl (fun n c => n + c.utf8Size) 0
    if bytes < 4 then .error ⟨.eofInString, some cur.toEnd.pos⟩ cur.toEnd
    else
      let after := cur.skipBytes 4
      match cur.rest.take 4 |>.mapM hexValue? with
      | some [a, b, c, d] => .ok (((a * 16 + b) * 16 + c) * 16 + d) after
      | _ => .error ⟨.invalidEscape, some after.pos⟩ after

/-- Reads a `\u` escape, the `u` read: a code unit outside the surrogates, or a leading surrogate
followed by an escaped trailing one. -/
def unicodeEscape : Reader Char := do
  let n ← hexQuad
  if 0xDC00 ≤ n ∧ n ≤ 0xDFFF then failHere .loneSurrogate
  else if n < 0xD800 ∨ n > 0xDBFF then pure (Char.ofNat n)
  else
    match ← peek? with
    | none => failHere .eofInString
    | some '\\' => bump
    | some _ => failAhead .unexpectedEndOfEscape
    match ← peek? with
    | none => failHere .eofInString
    | some 'u' => bump
    | some _ => failAhead .unexpectedEndOfEscape
    let m ← hexQuad
    if m < 0xDC00 ∨ m > 0xDFFF then failHere .loneSurrogate
    else pure (Char.ofNat ((n - 0xD800) * 0x400 + (m - 0xDC00) + 0x10000))

/-- The character that a one-letter escape stands for. -/
def escaped? : Char → Option Char
  | '"' => some '"'
  | '\\' => some '\\'
  | '/' => some '/'
  | 'b' => some '\x08'
  | 'f' => some '\x0c'
  | 'n' => some '\n'
  | 'r' => some '\r'
  | 't' => some '\t'
  | _ => none

/-- Reads an escape, the backslash read. -/
def escape : Reader Char := do
  match ← peek? with
  | none => failHere .eofInString
  | some 'u' => do bump; unicodeEscape
  | some c =>
    match escaped? c with
    | some e => do bump; pure e
    | none => failAhead .invalidEscape

/-- Reads string characters up to the closing quote; `fuel` bounds the characters left. -/
def stringBody : Nat → List Char → Reader String
  | 0, _ => failHere .eofInString
  | fuel + 1, acc => do
    match ← peek? with
    | none => failHere .eofInString
    | some '"' => do bump; pure (String.ofList acc.reverse)
    | some '\\' => do
      bump
      let c ← escape
      stringBody fuel (c :: acc)
    | some c =>
      bump
      if c.toNat < 0x20 then failHere .controlCharacter else stringBody fuel (c :: acc)

/-- Reads a string, the opening quote read. -/
def string : Reader String := do
  let cur ← get
  stringBody (cur.left + 1) []

/-! ## Numbers -/

/-- The largest value of an unsigned 64-bit word. -/
def wordMax : Nat := Nat.pow 2 64 - 1

/-- The largest value of a signed 32-bit exponent. -/
def exponentMax : Int := Int.pow 2 31 - 1

/-- Exact powers of ten as doubles, `10 ^ 0` to `10 ^ 308`. -/
def powersOfTen : Array Float :=
  ((List.range 309).map fun (i : Nat) => Decimal.ofDecimal false 1 (Int.ofNat i)).toArray

/-- Scales the significand by the power of ten, dividing by `10 ^ 308` first while the power is
out of the table; a result that overflows is refused. `fuel` bounds the divisions. -/
def scale (positive : Bool) : Nat → Float → Int → Reader Float
  | 0, f, _ => pure (if positive then f else -f)
  | fuel + 1, f, e =>
    match powersOfTen[e.natAbs]? with
    | some p =>
      if e ≥ 0 then
        let g := f * p
        if g.isInf then failHere .numberOutOfRange else pure (if positive then g else -g)
      else
        let g := f / p
        pure (if positive then g else -g)
    | none =>
      if f == 0 then pure (if positive then f else -f)
      else if e ≥ 0 then failHere .numberOutOfRange
      else scale positive fuel (f / powersOfTen[308]!) (e + 308)

/-- The double `significand * 10 ^ exponent`, signed. -/
def fromParts (positive : Bool) (significand : Nat) (exponent : Int) : Reader Float :=
  scale positive (exponent.natAbs / 308 + 2) (Decimal.ofDecimal false significand 0) exponent

/-- Moves past digits. -/
def skipDigits : Reader Unit :=
  fun cur =>
    let ds := cur.rest.takeWhile Char.isDigit
    .ok () ⟨cur.rest.dropWhile Char.isDigit, ds.foldl Pos.next cur.pos, cur.left - ds.length⟩

/-- The digit value of a character. -/
def digit (c : Char) : Nat := c.toNat - '0'.toNat

/-- Reads the digits of an exponent after its first one; a value beyond the range of exponents
gives zero, unless the significand is non-zero and the exponent positive. -/
def exponentDigits (positive : Bool) (significand : Nat) (positiveExp : Bool) :
    Nat → Int → Reader (Option Int)
  | 0, e => pure (some e)
  | fuel + 1, e => do
    match ← peek? with
    | some c =>
      if c.isDigit then
        bump
        let e' := e * 10 + digit c
        if e' > exponentMax then
          if significand ≠ 0 ∧ positiveExp then failHere .numberOutOfRange
          else
            skipDigits
            pure none
        else exponentDigits positive significand positiveExp fuel e'
      else pure (some e)
    | none => pure (some e)

/-- Reads an exponent, the `e` next, onto `significand * 10 ^ start`. -/
def exponent (positive : Bool) (significand : Nat) (start : Int) : Reader Float := do
  bump
  let positiveExp ← do
    match ← peek? with
    | some '+' => do bump; pure true
    | some '-' => do bump; pure false
    | _ => pure true
  match ← peek? with
  | none => failHere .eofInValue
  | some c =>
    if c.isDigit then
      bump
      let cur ← get
      match ← exponentDigits positive significand positiveExp (cur.left + 1) (digit c) with
      | none => pure (if positive then 0.0 else -0.0)
      | some e =>
        let total := if positiveExp then start + e else start - e
        let clamped := max (-exponentMax - 1) (min exponentMax total)
        fromParts positive significand clamped
    else failAhead .invalidNumber

/-- Reads what follows digits that no longer fit: further digits are dropped, then an exponent
may follow. -/
def afterOverflow (positive : Bool) (significand : Nat) (e : Int) : Reader Float := do
  skipDigits
  match ← peek? with
  | some 'e' => exponent positive significand e
  | some 'E' => exponent positive significand e
  | _ => fromParts positive significand e

/-- Reads fraction digits, the point next. -/
def fraction (positive : Bool) (significand : Nat) (before : Int) : Reader Float := do
  bump
  let rec go : Nat → Nat → Int → Reader Float
    | 0, s, after => fromParts positive s (before + after)
    | fuel + 1, s, after => do
      match ← peek? with
      | some c =>
        if c.isDigit then
          if s * 10 + digit c > wordMax then afterOverflow positive s (before + after)
          else do
            bump
            go fuel (s * 10 + digit c) (after - 1)
        else finish s after
      | none => finish s after
  , finish (s : Nat) (after : Int) : Reader Float := do
      if after = 0 then
        match ← peek? with
        | some _ => failAhead .invalidNumber
        | none => failAhead .eofInValue
      else
        match ← peek? with
        | some 'e' => exponent positive s (before + after)
        | some 'E' => exponent positive s (before + after)
        | _ => fromParts positive s (before + after)
  let cur ← get
  go (cur.left + 1) significand 0

/-- Reads digits beyond the range of a word: each one raises the exponent. -/
def longInteger (positive : Bool) (significand : Nat) : Nat → Int → Reader Float
  | 0, e => fromParts positive significand e
  | fuel + 1, e => do
    match ← peek? with
    | some '.' => fraction positive significand e
    | some 'e' => exponent positive significand e
    | some 'E' => exponent positive significand e
    | some c =>
      if c.isDigit then do
        bump
        longInteger positive significand fuel (e + 1)
      else fromParts positive significand e
    | none => fromParts positive significand e

/-- What follows the integer digits: a fraction, an exponent, or the end of the number. -/
def numberTail (positive : Bool) (significand : Nat) : Reader Number := do
  match ← peek? with
  | some '.' => .float <$> fraction positive significand 0
  | some 'e' => .float <$> exponent positive significand 0
  | some 'E' => .float <$> exponent positive significand 0
  | _ =>
    if positive then pure (.unsigned significand)
    else if significand = 0 ∨ significand > Nat.pow 2 63 then
      pure (.float (-(Decimal.ofDecimal false significand 0)))
    else pure (.negative (-(significand : Int)))

/-- Reads integer digits after the first. -/
def integerDigits (positive : Bool) : Nat → Nat → Reader Number
  | 0, s => numberTail positive s
  | fuel + 1, s => do
    match ← peek? with
    | some c =>
      if c.isDigit then
        if s * 10 + digit c > wordMax then do
          let cur ← get
          .float <$> longInteger positive s (cur.left + 1) 0
        else do
          bump
          integerDigits positive fuel (s * 10 + digit c)
      else numberTail positive s
    | none => numberTail positive s

/-- Reads a number, its sign read. -/
def number (positive : Bool) : Reader Number := do
  match ← peek? with
  | none => failHere .eofInValue
  | some '0' =>
    bump
    match ← peek? with
    | some c => if c.isDigit then failAhead .invalidNumber else numberTail positive 0
    | none => numberTail positive 0
  | some c =>
    if '1' ≤ c ∧ c ≤ '9' then do
      bump
      let cur ← get
      integerDigits positive (cur.left + 1) (digit c)
    else failAhead .invalidNumber

end Reader

end LazyCall.Json
