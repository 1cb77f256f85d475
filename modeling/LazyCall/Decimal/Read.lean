import LazyCall.Decimal.Shortest

/-!
# Reading decimals as doubles

`ofFraction` rounds a positive fraction to the nearest double, a half going to the even mantissa, by
exact division: the quotient is taken at the binary exponent that leaves 53 significant bits (or
at the least exponent, for subnormal results), and the remainder decides the rounding.
`ofDecimal` reads `digits * 10 ^ exponent` that way.

`readFloat?` reads the text of a floating-point literal: an optional sign, then `inf`, `infinity`
or `nan` in any case, or digits with an optional point and an optional exponent `e`/`E` with an
optional sign. At least one digit must stand before or after the point.
-/

namespace LazyCall.Decimal

/-- The double with the given sign, biased exponent and fraction bits. -/
def assemble (negative : Bool) (biased fraction : Nat) : Float :=
  Float.ofBits (UInt64.ofNat ((if negative then Nat.pow 2 63 else 0) + biased * Nat.pow 2 52 + fraction))

/-- `num / den` rounded to the nearest double, halves to even; `num` and `den` positive. The result
is infinite when it would reach `2 ^ 1024`. -/
def ofFraction (negative : Bool) (num den : Nat) : Float :=
  -- the exponent of the last mantissa bit, clamped at the subnormal floor
  let e : Int := max ((num.log2 : Int) - (den.log2 : Int) - 53) (-1074)
  let scaledNum := num * Nat.pow 2 (-e).toNat
  let scaledDen := den * Nat.pow 2 e.toNat
  let q := scaledNum / scaledDen
  let r := scaledNum % scaledDen
  -- the estimate can leave one bit too many; drop it into the remainder
  let (q, r, e, d) :=
    if q ≥ Nat.pow 2 53 then (q / 2, (q % 2) * scaledDen + r, e + 1, 2 * scaledDen)
    else (q, r, e, scaledDen)
  let q := if 2 * r > d ∨ (2 * r = d ∧ q % 2 = 1) then q + 1 else q
  let (q, e) := if q = Nat.pow 2 53 then (Nat.pow 2 52, e + 1) else (q, e)
  if q < Nat.pow 2 52 then assemble negative 0 q
  else if e + 1075 ≥ 2047 then assemble negative 2047 0
  else assemble negative (e + 1075).toNat (q - Nat.pow 2 52)

/-- `digits * 10 ^ exponent` rounded to the nearest double, with a sign. -/
def ofDecimal (negative : Bool) (digits : Nat) (exponent : Int) : Float :=
  if digits = 0 then assemble negative 0 0
  else if (digitCount digits : Int) + exponent > 310 then assemble negative 2047 0
  else if (digitCount digits : Int) + exponent < -330 then assemble negative 0 0
  else ofFraction negative (digits * Nat.pow 10 exponent.toNat) (Nat.pow 10 (-exponent).toNat)

/-- The value of a run of decimal digits. -/
def digitsValue (cs : List Char) : Nat :=
  cs.foldl (fun n c => 10 * n + (c.toNat - '0'.toNat)) 0

/-- Reads the digits after an exponent mark: an optional sign, then at least one digit. -/
def readExponent? : List Char → Option Int
  | '+' :: rest => if rest ≠ [] ∧ rest.all Char.isDigit then some (digitsValue rest) else none
  | '-' :: rest => if rest ≠ [] ∧ rest.all Char.isDigit then some (-(digitsValue rest : Int)) else none
  | rest => if rest ≠ [] ∧ rest.all Char.isDigit then some (digitsValue rest) else none

/-- Reads an unsigned decimal literal: digits, an optional point with digits, an optional
exponent, as `digits * 10 ^ exponent`. -/
def readUnsigned? (cs : List Char) : Option Scientific :=
  let whole := cs.takeWhile Char.isDigit
  let rest := cs.dropWhile Char.isDigit
  let (frac, rest) := match rest with
    | '.' :: r => (r.takeWhile Char.isDigit, r.dropWhile Char.isDigit)
    | r => ([], r)
  let hasPoint := match cs.dropWhile Char.isDigit with
    | '.' :: _ => true
    | _ => false
  if whole = [] ∧ frac = [] then none
  else
    let exp? : Option Int := match rest with
      | [] => some 0
      | c :: r => if c = 'e' ∨ c = 'E' then readExponent? r else none
    -- a point must be followed by digits, an exponent or the end
    if hasPoint ∧ frac = [] ∧ whole = [] then none
    else exp?.map fun x => ⟨digitsValue (whole ++ frac), x - frac.length⟩

/-- Whether `cs` spells `word` in any case. -/
def spells (cs : List Char) (word : String) : Bool :=
  cs.map Char.toLower == word.toList

/-- Reads a floating-point literal, or fails. -/
def readFloat? (s : String) : Option Float :=
  let (negative, body) := match s.toList with
    | '+' :: r => (false, r)
    | '-' :: r => (true, r)
    | r => (false, r)
  if spells body "inf" || spells body "infinity" then some (assemble negative 2047 0)
  else if spells body "nan" then some (assemble negative 2047 (Nat.pow 2 51))
  else (readUnsigned? body).map fun d => ofDecimal negative d.digits d.exponent

end LazyCall.Decimal
