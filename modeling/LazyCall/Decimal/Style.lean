import LazyCall.Decimal.Shortest

/-!
# Writing doubles in decimal

A `Style` fixes how a double is written once its shortest digits are known: which decimal
exponents of the leading digit are written positionally (all others take the form `d.ddde-7`), the
least number of digits after the point in positional form, how an exact tie between two shortest
decimals is settled, and the words for a NaN and an infinity.

Three styles are used: `Style.plain` for the display text of a value, `Style.debug` for
its debugging text, and `Style.compact` for a number quoted in a configuration error.
-/

namespace LazyCall.Decimal

/-- How a double is written. -/
structure Style where
  /-- Whether a value whose leading digit has decimal exponent `d` is written positionally. -/
  positional : Int → Bool
  /-- The least number of digits after the point in positional form. -/
  minFraction : Nat
  /-- How an exact tie between the two nearest shortest decimals is settled. -/
  tie : Tie
  /-- Whether a positive exponent is written with a plus sign. -/
  plusExponent : Bool := false
  /-- The text of a NaN. -/
  nan : String := "NaN"
  /-- The text of positive infinity; negative infinity takes a minus sign. -/
  infinity : String := "inf"

/-- Display text: always positional, no point for an integral value, ties rounded up. -/
def Style.plain : Style :=
  { positional := fun _ => true, minFraction := 0, tie := .up }

/-- Debugging text: positional from `1e-4` up to below `1e16`, with at least one digit after the
point; exponent form outside that range. -/
def Style.debug : Style :=
  { positional := fun d => decide (-4 ≤ d ∧ d < 16), minFraction := 1, tie := .up }

/-- Compact text for numbers quoted in messages: positional from `1e-5` up to below `1e16`, with
at least one digit after the point, ties to even; a positive exponent carries a plus sign
(`1e+16`, `1e-6`). -/
def Style.compact : Style :=
  { positional := fun d => decide (-5 ≤ d ∧ d < 16), minFraction := 1, tie := .even,
    plusExponent := true }

/-- `n` zeros. -/
def zeros (n : Nat) : String :=
  String.ofList (List.replicate n '0')

/-- The positional text of `digits * 10 ^ exponent`, with at least `minFraction` digits after the
point. -/
def positionalText (minFraction : Nat) (d : Scientific) : String :=
  let s := toString d.digits
  let n := s.length
  if d.exponent ≥ 0 then
    s ++ zeros d.exponent.toNat ++ (if minFraction = 0 then "" else "." ++ zeros minFraction)
  else
    let places := (-d.exponent).toNat
    if places < n then
      String.ofList (s.toList.take (n - places)) ++ "." ++ String.ofList (s.toList.drop (n - places))
    else "0." ++ zeros (places - n) ++ s

/-- The exponent text of `digits * 10 ^ exponent`: the leading digit, the other digits after a
point if there are any, then `e` and the decimal exponent of the leading digit, which carries a
plus sign when positive and `plus` is set. -/
def exponentText (plus : Bool) (d : Scientific) : String :=
  let s := (toString d.digits).toList
  let lead := (s.length : Int) - 1 + d.exponent
  let body := match s with
    | [] => ""
    | [c] => String.singleton c
    | c :: rest => String.singleton c ++ "." ++ String.ofList rest
  body ++ "e" ++ (if plus && lead > 0 then "+" else "") ++ toString lead

/-- The text of a double in style `nt`. -/
def Style.write (nt : Style) (x : Float) : String :=
  match Parts.ofFloat x with
  | .nan => nt.nan
  | .infinite negative => (if negative then "-" else "") ++ nt.infinity
  | .finite negative m e =>
    let sign := if negative then "-" else ""
    if m = 0 then sign ++ positionalText nt.minFraction ⟨0, 0⟩
    else
      let d := shortest nt.tie m e
      let lead := (digitCount d.digits : Int) - 1 + d.exponent
      if nt.positional lead then sign ++ positionalText nt.minFraction d
      else sign ++ exponentText nt.plusExponent d

end LazyCall.Decimal
