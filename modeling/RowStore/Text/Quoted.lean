import RowStore.Text.Unprintable

/-!
# Quoted Texts

How a path is shown in a message: between double quotes, with what cannot be
shown plainly written as an escape.

A quote or a backslash gets a backslash before it. The zero character, a tab, a
carriage return and a line feed have short escapes; any other character that is
not printable is shown by its number in hexadecimal.

## Main definitions

* `quoteChar`: How one character is shown.
* `quote`: A text between quotes.
-/

namespace RowStore

namespace Text

/-- How a character is shown between quotes. -/
def quoteChar (c : Char) : String :=
  if c = '"' then "\\\""
  else if c = '\\' then "\\\\"
  else if c = '\x00' then "\\0"
  else if c = '\t' then "\\t"
  else if c = '\r' then "\\r"
  else if c = '\n' then "\\n"
  else if isUnprintable c then
    "\\u\x7b" ++ String.ofList (Nat.toDigits 16 c.toNat) ++ "\x7d"
  else c.toString

/-- A text between double quotes. -/
def quote (s : String) : String := "\"" ++ String.join (s.toList.map quoteChar) ++ "\""

end Text

end RowStore
