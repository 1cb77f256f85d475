/-!
# Shortest decimal digits of a double

A finite double is `mantissa * 2 ^ exponent`. The reals that round to it form an interval around
it, which reaches half-way to each neighbouring double and includes its ends exactly when the
mantissa is even. The shortest digits of the double are the decimal `digits * 10 ^ exponent` with
the fewest significant digits inside that interval; of two such decimals the nearer one is taken,
and an exact tie is settled by a `Tie` rule.

The search looks at the decimal grids `10 ^ p` from the coarsest one below the value downwards:
on each grid only the two grid points around the value can lie in the interval, so the first grid
with a hit gives the answer. Everything is exact `Nat` arithmetic.
-/

namespace LazyCall.Decimal

/-- The pieces of a double: not a number, an infinity, or a finite value
`(-1) ^ negative * mantissa * 2 ^ exponent`. -/
inductive Parts where
  | nan
  | infinite (negative : Bool)
  | finite (negative : Bool) (mantissa : Nat) (exponent : Int)
  deriving Repr, DecidableEq

/-- Splits the bits of a double into its pieces. A finite value keeps its encoded mantissa, with
the hidden bit added for normal numbers. -/
def Parts.ofFloat (x : Float) : Parts :=
  let bits : Nat := x.toBits.toNat
  let negative := decide (bits ≥ Nat.pow 2 63)
  let biased : Nat := (bits / Nat.pow 2 52) % 2048
  let fraction : Nat := bits % Nat.pow 2 52
  if biased = 2047 then
    if fraction = 0 then .infinite negative else .nan
  else if biased = 0 then .finite negative fraction (-1074)
  else .finite negative (fraction + Nat.pow 2 52) ((biased : Int) - 1075)

/-- A decimal number `digits * 10 ^ exponent`. -/
structure Scientific where
  digits : Nat
  exponent : Int
  deriving Repr, DecidableEq

/-- How an exact tie between the two nearest shortest decimals is settled. -/
inductive Tie where
  /-- The larger decimal wins. -/
  | up
  /-- The decimal with an even last digit wins. -/
  | even
  deriving Repr, DecidableEq

/-- Compares `a * 10 ^ p` with `x * 2 ^ q`. -/
def compareScaled (a : Nat) (p : Int) (x : Nat) (q : Int) : Ordering :=
  compare (a * Nat.pow 10 p.toNat * Nat.pow 2 (-q).toNat) (x * Nat.pow 2 q.toNat * Nat.pow 10 (-p).toNat)

/-- `⌊m * 2 ^ e / 10 ^ p⌋`. -/
def floorScaled (m : Nat) (e p : Int) : Nat :=
  (m * Nat.pow 2 e.toNat * Nat.pow 10 (-p).toNat) / (Nat.pow 2 (-e).toNat * Nat.pow 10 p.toNat)

/-- The rounding interval of a positive finite double `m * 2 ^ e`, written as
`lower * 2 ^ (e - 2)` to `upper * 2 ^ (e - 2)`. Below a power of two the next smaller double is
half as far away, so that side is half as wide. -/
structure Interval where
  lower : Nat
  upper : Nat
  inclusive : Bool

/-- The interval of reals that round to the positive double `m * 2 ^ e`. -/
def Interval.around (m : Nat) : Interval :=
  { lower := 4 * m - (if m = Nat.pow 2 52 then 1 else 2)
    upper := 4 * m + 2
    inclusive := m % 2 == 0 }

/-- Whether `a * 10 ^ p` lies in the interval `iv` of a double with binary exponent `e`. -/
def Interval.holds (iv : Interval) (e : Int) (a : Nat) (p : Int) : Bool :=
  let lo := compareScaled a p iv.lower (e - 2)
  let hi := compareScaled a p iv.upper (e - 2)
  if iv.inclusive then lo != .lt && hi != .gt else lo == .gt && hi == .lt

/-- The decimal exponent of the leading digit of `m * 2 ^ e` (for `m > 0`): the largest `d` with
`10 ^ d ≤ m * 2 ^ e`. The estimate from the binary length is off by at most one. -/
def leadingExponent (m : Nat) (e : Int) : Int :=
  let t : Int := e + (m.log2 : Int)
  let guess := t * 30103 / 100000
  let atMost (d : Int) : Bool := compareScaled 1 d m e != .gt
  if atMost (guess + 1) then guess + 1 else if atMost guess then guess else guess - 1

/-- The grid point of `10 ^ p` chosen for `m * 2 ^ e`, if one of the two around it lies in the
interval: the nearer one when both do. -/
def onGrid (tie : Tie) (m : Nat) (e : Int) (p : Int) : Option Scientific :=
  let iv := Interval.around m
  let k := floorScaled m e p
  let below := iv.holds e k p
  let above := iv.holds e (k + 1) p
  if below && above then
    match compareScaled (2 * k + 1) p (2 * m) e with
    | .gt => some ⟨k, p⟩
    | .lt => some ⟨k + 1, p⟩
    | .eq =>
      match tie with
      | .up => some ⟨k + 1, p⟩
      | .even => if k % 2 = 0 then some ⟨k, p⟩ else some ⟨k + 1, p⟩
  else if below then some ⟨k, p⟩
  else if above then some ⟨k + 1, p⟩
  else none

/-- Tries the grids `10 ^ p`, `10 ^ (p - 1)`, … for `fuel` steps. -/
def searchGrids (tie : Tie) (m : Nat) (e : Int) : Nat → Int → Option Scientific
  | 0, _ => none
  | fuel + 1, p =>
    match onGrid tie m e p with
    | some d => some d
    | none => searchGrids tie m e fuel (p - 1)

/-- Drops trailing zero digits, raising the exponent; `fuel` bounds the number dropped. -/
def Scientific.trim : Nat → Scientific → Scientific
  | 0, d => d
  | fuel + 1, d =>
    if d.digits ≠ 0 ∧ d.digits % 10 = 0 then Scientific.trim fuel ⟨d.digits / 10, d.exponent + 1⟩
    else d

/-- The shortest digits of the positive double `m * 2 ^ e`, without trailing zeros. Seventeen
significant digits always identify a double; the last grid tried is the value itself. -/
def shortest (tie : Tie) (m : Nat) (e : Int) : Scientific :=
  let top := leadingExponent m e
  let found := (searchGrids tie m e 18 top).getD ⟨floorScaled m e (top - 17), top - 17⟩
  found.trim 400

/-- The number of decimal digits of `n` (one for zero). -/
def digitCount (n : Nat) : Nat :=
  (Nat.toDigits 10 n).length

example : shortest .up 1 (-1074) = ⟨5, -324⟩ := by decide +kernel

end LazyCall.Decimal
