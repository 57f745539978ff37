/-
**Reading the text of a file of settings.**

A file of settings has a line for each field, a key and a value with an equals sign between them,
and lines with a name in brackets, below which the fields belong to the table of that name.  Values
are texts in double or single quotes, truth values and numbers; what stands behind a number sign is
a comment.

Main definitions:

* `Config.TableText.valueOf?`: the value on a line, behind the equals sign;
* `Config.TableText.Line`, `Config.TableText.lineOf?`: what a line says;
* `Config.TableText.read`: the fields of a whole text.
-/

import DocCatalog.Config.Layers
import DocCatalog.Json.Reader
import DocCatalog.Text.Blank
import DocCatalog.Text.Split

set_option autoImplicit false

namespace DocCatalog.Config.TableText

/-- Whether nothing is left on a line but blanks and a comment. -/
def isEnd (cs : List Char) : Bool :=
  match cs.dropWhile Text.isBlank with
  | [] => true
  | c :: _ => c = '#'

/-- A text, behind its opening double quote, with the rest. -/
def scanQuoted? (cs : List Char) : Option (String × List Char) := do
  let (points, rest) ← (Json.scanText cs).toOption
  return (← Json.textOf? points, rest)

/-- The value at the head of a text, with the rest. -/
def scanValue? (cs : List Char) : Option (Value × List Char) :=
  match cs with
  | '"' :: rest => (scanQuoted? rest).map fun p => (.text p.1, p.2)
  | '\'' :: rest =>
      match rest.dropWhile (· ≠ '\'') with
      | _ :: behind => some (.text (String.ofList (rest.takeWhile (· ≠ '\''))), behind)
      | [] => none
  | 't' :: 'r' :: 'u' :: 'e' :: rest => some (.bool true, rest)
  | 'f' :: 'a' :: 'l' :: 's' :: 'e' :: rest => some (.bool false, rest)
  | '-' :: rest => (Json.scanNumber true rest).toOption
  | '+' :: rest => (Json.scanNumber false rest).toOption
  | _ => (Json.scanNumber false cs).toOption

/-- The value on a line, behind the equals sign. -/
def valueOf? (cs : List Char) : Option Value := do
  let (value, rest) ← scanValue? (cs.dropWhile Text.isBlank)
  if isEnd rest then return value else none

/-- Whether a character may stand in a key without quotes. -/
def isKeyChar (c : Char) : Bool := c.isAlphanum || c = '_' || c = '-'

/-- A key, with the rest of the line. -/
def scanKey? (cs : List Char) : Option (String × List Char) :=
  match cs with
  | '"' :: rest => scanQuoted? rest
  | _ =>
      match cs.span isKeyChar with
      | ([], _) => none
      | (key, rest) => some (String.ofList key, rest)

/-- What a line says. -/
inductive Line where
  | empty
  | table (name : String)
  | field (key : String) (value : Value)

/-- What a line says, if it is well formed. -/
def lineOf? (cs : List Char) : Option Line :=
  match cs.dropWhile Text.isBlank with
  | [] => some .empty
  | '#' :: _ => some .empty
  | '[' :: rest => do
      let (name, rest) ← scanKey? (rest.dropWhile Text.isBlank)
      match rest.dropWhile Text.isBlank with
      | ']' :: rest => if isEnd rest then return .table name else none
      | _ => none
  | rest => do
      let (key, rest) ← scanKey? rest
      match rest.dropWhile Text.isBlank with
      | '=' :: rest => return .field key (← valueOf? rest)
      | _ => none

/-- What was read so far: the fields above all tables, the tables, and the table that fields belong
to. -/
structure State where
  fields : OrderedTable String Value := ∅
  tables : OrderedTable String (OrderedTable String Value) := ∅
  current : Option String := none

/-- The state after a line.  No key is given twice, and no table is opened twice. -/
def State.after? (s : State) : Line → Option State
  | .empty => some s
  | .table name =>
      if s.tables.contains name || s.fields.contains name then none
      else some { s with tables := s.tables.insert name ∅, current := some name }
  | .field key value =>
      match s.current with
      | none =>
          if s.fields.contains key then none
          else some { s with fields := s.fields.insert key value }
      | some name =>
          let table := (s.tables.get? name).getD ∅
          if table.contains key then none
          else some { s with tables := s.tables.insert name (table.insert key value) }

/-- All fields that were read, a table being a field too. -/
def State.toFields (s : State) : List (String × Value) :=
  s.fields.toList ++ s.tables.toList.map fun p => (p.1, .dict p.2.toList)

/-- Lines from a number on; the number of the first that is not well formed is reported. -/
def readLines (number : Nat) (s : State) : List (List Char) → Except Nat State
  | [] => .ok s
  | line :: rest =>
      match (lineOf? line).bind s.after? with
      | some s => readLines (number + 1) s rest
      | none => .error number

/-- What a text amounts to as a file of settings. -/
def read (text : String) : FileState :=
  match readLines 1 {} (Text.split ['\n'] text.toList) with
  | .ok s => .table s.toFields
  | .error number => .broken ("Invalid statement (at line " ++ toString number ++ ")")

end DocCatalog.Config.TableText
