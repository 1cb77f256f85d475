import LazyCall.Text.Standalone

/-!
# Quoted literals

The debugging form of a text: the text between double quotes, with the quote, the backslash and
the characters that do not stand alone written as escapes. Tab, carriage return, line feed and
NUL have short escapes (`\t`, `\r`, `\n`, `\0`); every other escaped character is written as
`\u{h}` with its code point in lowercase hexadecimal without leading zeros. The single quote is
written as itself.
-/

namespace LazyCall.Text

/-- Lowercase hexadecimal digits of `n`, without leading zeros (`0` for zero). -/
def hexDigits (n : Nat) : String :=
  String.ofList ((Nat.toDigits 16 n).map Char.toLower)

/-- How one character is written inside a quoted literal. -/
def escapeChar (c : Char) : String :=
  if c = '\\' then "\\\\"
  else if c = '"' then "\\\""
  else if c = '\t' then "\\t"
  else if c = '\r' then "\\r"
  else if c = '\n' then "\\n"
  else if c = '\x00' then "\\0"
  else if standsAlone c then String.singleton c
  else "\\u\x7B" ++ hexDigits c.toNat ++ "\x7D"

/-- The quoted literal of a text. -/
def quote (s : String) : String :=
  "\"" ++ String.join (s.toList.map escapeChar) ++ "\""

example : quote "a\"b" = "\"a\\\"b\"" := by decide
example : escapeChar (Char.ofNat 0x301) = "\\u\x7B301\x7D" := by decide +kernel

end LazyCall.Text
