/-
**The lines of a text.**

A line ends at a line feed or a carriage return; a carriage return with a line feed behind it is one
end.  What stands behind the last end is a line if it is not empty.

Main definitions:

* `Text.isLineEnd`: the characters at which a line ends;
* `Text.lines`: the lines of a text, without their ends.
-/

import DocCatalog.Text.Split

set_option autoImplicit false

namespace DocCatalog.Text

/-- The characters at which a line ends.  The other controls and the separators of lines and
paragraphs stay inside a line. -/
def isLineEnd (c : Char) : Bool := c = '\n' || c = '\r'

/-- The lines of a text, without their ends. -/
def lines : List Char → List (List Char)
  | [] => []
  | '\r' :: '\n' :: rest => [] :: lines rest
  | c :: rest => if isLineEnd c then [] :: lines rest else consFirst c (lines rest)

end DocCatalog.Text
