/-!
# Hidden addresses

A foreign value's debugging text carries the address of the value it wraps, which differs from
run to run. Debugging texts are therefore reported with every address hidden: wherever the text
has `Foreign(` followed by `0x` or by `Pointer`, what runs from there up to the next `)` is
replaced by `<ptr>`. The rule reads the text alone, so it also applies to `Foreign(0x..)`
written inside a string or a name; a `Foreign(` with anything else after it, or with no `)`
after it, stays as it is. After a replacement the scan goes on past the `)`.
-/

namespace LazyCall.Text

/-- Whether an address starts here: `Foreign(0x` or `Foreign(Pointer`, with a `)` further on. -/
def addressAt (cs : List Char) : Bool :=
  ("Foreign(0x".toList.isPrefixOf cs || "Foreign(Pointer".toList.isPrefixOf cs) && cs.contains ')'

/-- Hides the addresses of a list of characters. While `skipping`, characters are dropped up to
the `)` that ends the address being hidden; the `F` of `Foreign(` is the only character taken
when an address starts, and the rest of `oreign(` holds no `)`, so skipping drops it too. -/
def hideAddressesFrom : Bool → List Char → List Char
  | _, [] => []
  | true, c :: cs => if c = ')' then ')' :: hideAddressesFrom false cs else hideAddressesFrom true cs
  | false, c :: cs =>
    if addressAt (c :: cs) then "Foreign(<ptr>".toList ++ hideAddressesFrom true cs
    else c :: hideAddressesFrom false cs

/-- The text with every address hidden. -/
def hideAddresses (s : String) : String :=
  String.ofList (hideAddressesFrom false s.toList)

example : hideAddresses "Foreign(Foreign(0x5f3a))" = "Foreign(Foreign(<ptr>))" ∧
    hideAddresses "String(\"Foreign(x0)\")" = "String(\"Foreign(x0)\")" := by
  decide

end LazyCall.Text
