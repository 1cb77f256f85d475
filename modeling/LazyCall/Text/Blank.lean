/-!
# Blank characters

The characters with the Unicode `White_Space` property, and trimming them from both ends of a
text. Trimming is how a setting read from the process environment is cleaned before it is read as
a number.
-/

namespace LazyCall.Text

/-- The `White_Space` characters: tab to carriage return, space, next line, no-break space, the
Ogham space mark, the en quad to hair space block, the line and paragraph separators, the narrow
no-break space, the medium mathematical space and the ideographic space. -/
def isBlank (c : Char) : Bool :=
  let n := c.toNat
  (0x09 ≤ n && n ≤ 0x0D) || n == 0x20 || n == 0x85 || n == 0xA0 || n == 0x1680 ||
    (0x2000 ≤ n && n ≤ 0x200A) || n == 0x2028 || n == 0x2029 || n == 0x202F ||
    n == 0x205F || n == 0x3000

/-- Drops blank characters from both ends of a list of characters. -/
def trimBlanks (cs : List Char) : List Char :=
  ((cs.dropWhile isBlank).reverse.dropWhile isBlank).reverse

/-- Drops blank characters from both ends of a text. -/
def trim (s : String) : String :=
  String.ofList (trimBlanks s.toList)

example : isBlank ' ' ∧ isBlank '\t' ∧ isBlank '\u3000' ∧ !isBlank 'a' ∧ !isBlank '\u200B' := by
  decide

end LazyCall.Text
