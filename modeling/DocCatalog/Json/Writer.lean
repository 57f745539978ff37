/-
**Writing values as JSON text.**

Sequences of both kinds are arrays, members of the closed sets are written as their words, days and
times as in running text, and numbers as in `Value.literal`, so that an integer and a number with a
point stay apart.

Main definitions:

* `Json.writeText`: a text between quotes;
* `Json.write`: a value on one line;
* `Json.writeIndented`: a value with each item and each field on a line of its own.
-/

import DocCatalog.Value.Text

set_option autoImplicit false

namespace DocCatalog.Json

/-- One character between quotes. -/
def escape (c : Char) : String :=
  if c = '"' then "\\\""
  else if c = '\\' then "\\\\"
  else if c = '\n' then "\\n"
  else if c = '\r' then "\\r"
  else if c = '\t' then "\\t"
  else if c.toNat < 0x20 then "\\u" ++ Text.hexadecimal 4 c.toNat
  else c.toString

/-- A text between quotes. -/
def writeText (s : String) : String := "\"" ++ String.join (s.toList.map escape) ++ "\""

/-- A number with a point. -/
def writeNumber (x : Binary64) : String :=
  x.render { Value.numberLayout with infinity := "Infinity", nan := "NaN" }

mutual

/-- A value on one line. -/
def write : Value → String
  | .null => "null"
  | .bool b => if b then "true" else "false"
  | .int n => toString n
  | .float x => writeNumber x
  | .text s => writeText s
  | .moment m => writeText m.display
  | .list items => "[" ++ ", ".intercalate (writeItems items) ++ "]"
  | .tuple items => "[" ++ ", ".intercalate (writeItems items) ++ "]"
  | .dict fields => "\x7b" ++ ", ".intercalate (writeFields fields) ++ "\x7d"
  | .scope s => writeText s.word
  | .visibility v => writeText v.word

def writeItems : List Value → List String
  | [] => []
  | v :: rest => write v :: writeItems rest

def writeFields : List (String × Value) → List String
  | [] => []
  | (k, v) :: rest => (writeText k ++ ": " ++ write v) :: writeFields rest

end

/-- Lines between brackets, each two columns in. -/
def bracketed (opening closing : String) (lines : List String) : String :=
  if lines = [] then opening ++ closing
  else
    let shifted := lines.map fun l => "  " ++ l.replace "\n" "\n  "
    opening ++ "\n" ++ ",\n".intercalate shifted ++ "\n" ++ closing

mutual

/-- A value with each item and each field on a line of its own. -/
def writeIndented : Value → String
  | .list items => bracketed "[" "]" (indentedItems items)
  | .tuple items => bracketed "[" "]" (indentedItems items)
  | .dict fields => bracketed "\x7b" "\x7d" (indentedFields fields)
  | .null => write .null
  | .bool b => write (.bool b)
  | .int n => write (.int n)
  | .float x => write (.float x)
  | .text s => write (.text s)
  | .moment m => write (.moment m)
  | .scope s => write (.scope s)
  | .visibility v => write (.visibility v)

def indentedItems : List Value → List String
  | [] => []
  | v :: rest => writeIndented v :: indentedItems rest

def indentedFields : List (String × Value) → List String
  | [] => []
  | (k, v) :: rest => (writeText k ++ ": " ++ writeIndented v) :: indentedFields rest

end

end DocCatalog.Json
