/-
**The text of a value.**

A value has a literal form, in which it is quoted in messages, and a display form, in which it takes
the place of a name or stands in running text.  They differ for texts, which are displayed as they
are, for days and times, and for members of the closed sets.  Integers are written in decimal
digits, up to a fixed number of them; a value with a larger one has neither form.

Main definitions:

* `Value.numberLayout`: how numbers with a point are written;
* `Value.literal`, `Value.display`: the two forms;
* `Value.isOverlong`: whether a value has an integer that cannot be written;
* `Value.texts`: the texts in a value.
-/

import DocCatalog.Number.Shortest
import DocCatalog.Text.Quoted
import DocCatalog.Value.Basic

set_option autoImplicit false

namespace DocCatalog

/-- The name of a scope as a member of its set. -/
def Scope.memberName : Scope → String
  | .onClass => "Scope.CLASS"
  | .onInstance => "Scope.INSTANCE"

/-- The name of a visibility as a member of its set. -/
def Visibility.memberName : Visibility → String
  | .publicAccess => "Visibility.PUBLIC"
  | .protectedAccess => "Visibility.PROTECTED"
  | .privateAccess => "Visibility.PRIVATE"

namespace Value

/-- Numbers with a point have one in positional notation, which ends below `10 ^ (-4)` and at
`10 ^ 16`; an exponent has two digits or more. -/
def numberLayout : DecimalLayout where
  leastPositional := -4
  endPositional := 16
  exponentDigits := 2
  infinity := "inf"
  nan := "nan"

/-- A closed sequence: one with a single item keeps its comma. -/
def tupleText : List String → String
  | [item] => "(" ++ item ++ ",)"
  | items => "(" ++ ", ".intercalate items ++ ")"

mutual

/-- The form in which a value is quoted. -/
def literal : Value → String
  | null => "None"
  | bool true => "True"
  | bool false => "False"
  | int n => toString n
  | float x => x.render numberLayout
  | text s => Text.quote s
  | moment m => m.literal
  | list items => "[" ++ ", ".intercalate (literals items) ++ "]"
  | tuple items => tupleText (literals items)
  | dict fields => "\x7b" ++ ", ".intercalate (fieldLiterals fields) ++ "\x7d"
  | scope s => "<" ++ s.memberName ++ ": " ++ Text.quote s.word ++ ">"
  | visibility v => "<" ++ v.memberName ++ ": " ++ Text.quote v.word ++ ">"

def literals : List Value → List String
  | [] => []
  | v :: rest => literal v :: literals rest

def fieldLiterals : List (String × Value) → List String
  | [] => []
  | (k, v) :: rest => (Text.quote k ++ ": " ++ literal v) :: fieldLiterals rest

end

mutual

/-- Whether there is an integer in a value that has more digits than are written. -/
def isOverlong : Value → Bool
  | int n => decide (Nat.pow 10 digitLimit ≤ n.natAbs)
  | list items => areOverlong items
  | tuple items => areOverlong items
  | dict fields => fieldsAreOverlong fields
  | _ => false

def areOverlong : List Value → Bool
  | [] => false
  | v :: rest => isOverlong v || areOverlong rest

def fieldsAreOverlong : List (String × Value) → Bool
  | [] => false
  | (_, v) :: rest => isOverlong v || fieldsAreOverlong rest

end

mutual

/-- The texts in a value, keys included; a member of a closed set has its word. -/
def texts : Value → List String
  | text s => [s]
  | scope s => [s.word]
  | visibility v => [v.word]
  | list items => itemTexts items
  | tuple items => itemTexts items
  | dict fields => fieldTexts fields
  | _ => []

def itemTexts : List Value → List String
  | [] => []
  | v :: rest => texts v ++ itemTexts rest

def fieldTexts : List (String × Value) → List String
  | [] => []
  | (k, v) :: rest => k :: texts v ++ fieldTexts rest

end

/-- The form in which a value stands in running text. -/
def display : Value → String
  | text s => s
  | moment m => m.display
  | scope s => s.memberName
  | visibility v => v.memberName
  | v => literal v

@[simp] theorem display_text (s : String) : (text s).display = s := rfl

end Value

end DocCatalog
