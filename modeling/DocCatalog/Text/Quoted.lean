/-
**Quoted text.**

A text is shown between quotes: single ones, or double ones if it holds a single quote and no double
quote.  The quote in use and the backslash are escaped, so are line feed, carriage return and tab,
and every other character that is not printable is written by its number, with the least of two,
four or eight hexadecimal digits that hold it.

Main definitions:

* `Text.escape`: one character inside quotes;
* `Text.quote`: a whole text, quotes included.
-/

import DocCatalog.Text.Printable

set_option autoImplicit false

namespace DocCatalog.Text

/-- A number in at least `width` lower-case hexadecimal digits. -/
def hexadecimal (width n : Nat) : String :=
  let digits := Nat.toDigits 16 n
  String.ofList (List.replicate (width - digits.length) '0' ++ digits)

/-- One character between quotes `q`. -/
def escape (q c : Char) : String :=
  if c = q || c = '\\' then String.ofList ['\\', c]
  else if c = '\n' then "\\n"
  else if c = '\r' then "\\r"
  else if c = '\t' then "\\t"
  else if isPrintable c then c.toString
  else if c.toNat < 0x100 then "\\x" ++ hexadecimal 2 c.toNat
  else if c.toNat < 0x10000 then "\\u" ++ hexadecimal 4 c.toNat
  else "\\U" ++ hexadecimal 8 c.toNat

/-- The quote for a text: the single one, unless the text holds it and not the double one. -/
def quoteFor (cs : List Char) : Char :=
  if '\'' ∈ cs ∧ '"' ∉ cs then '"' else '\''

/-- A text between quotes. -/
def quote (s : String) : String :=
  let q := quoteFor s.toList
  q.toString ++ String.join (s.toList.map (escape q)) ++ q.toString

end DocCatalog.Text
