/-
**Reading the parts of a manifest.**

A manifest is plain data: a mapping from the names of its sections to lists of entries, each entry a
mapping again.  Nothing here touches a catalog.

Main definitions:

* `Manifest.sections`, `Manifest.entriesOf`: the sections of a manifest and the entries of one;
* `Manifest.text`, `Manifest.textOr`, `Manifest.textOrNull`: fields of an entry that must be texts;
* `Manifest.parameters`, `Manifest.place?`: fields of other kinds.
-/

import DocCatalog.Catalog.Fault

set_option autoImplicit false

namespace DocCatalog.Manifest

/-- The fields of an entry, or of the manifest itself. -/
abbrev Fields := List (String × Value)

/-- A problem in a section. -/
def refuse {α : Type} (part : Part) (problem : Problem) : Except Fault α :=
  .error (.manifest problem (some part))

/-! ### Sections -/

/-- The sections of a manifest, which must be a mapping without any other key. -/
def sections (data : Value) : Except Fault Fields :=
  match data with
  | .dict fields =>
      let unknown := (fields.map Prod.fst).filter fun k => !(Part.all.any fun p => p.key = k)
      if unknown = [] then .ok fields
      else
        let sorted := unknown.mergeSort fun a b => !decide (b < a)
        .error (.manifest (.unknownParts sorted) none)
  | _ => .error (.manifest .notMapping none)

/-- An entry of a section. -/
def entryOf? : Value → Option Fields
  | .dict fields => some fields
  | _ => none

/-- The entries of a section, none if it is not there. -/
def entriesOf (fields : Fields) (part : Part) : Except Fault (List Fields) :=
  match Value.field? fields part.key with
  | none => .ok []
  | some (.list items) =>
      match items.mapM entryOf? with
      | some entries => .ok entries
      | none => refuse part .notEntries
  | some _ => refuse part .notEntries

/-! ### Fields of an entry -/

/-- A value that must be a text. -/
def textOf (key : String) (part : Part) : Value → Except Fault String
  | .text s => .ok s
  | v => refuse part (.notText key v)

/-- A field that must be there and be a text. -/
def text (entry : Fields) (key : String) (part : Part) : Except Fault String :=
  match Value.field? entry key with
  | some v => textOf key part v
  | none => refuse part (.missing key (.dict entry))

/-- A field that must be a text if it is there. -/
def textOr (default : String) (entry : Fields) (key : String) (part : Part) :
    Except Fault String :=
  match Value.field? entry key with
  | some v => textOf key part v
  | none => .ok default

/-- A field that must be a text if it is there and not null. -/
def textOrNull (entry : Fields) (key : String) (part : Part) : Except Fault (Option String) :=
  match Value.field? entry key with
  | none => .ok none
  | some .null => .ok none
  | some v => (textOf key part v).map some

/-- Whether a value is a text or null. -/
def isTextOrNull : Value → Bool
  | .null => true
  | .text _ => true
  | _ => false

/-- Whether a value is a parameter: a name, or a list of a name and perhaps a default, which is a
text or null. -/
def isParameter : Value → Bool
  | .text _ => true
  | .list [.text _] => true
  | .list [.text _, default] => isTextOrNull default
  | _ => false

/-- The parameters of a method, which are none if the field is not there. -/
def parameters (entry : Fields) : Except Fault (List Value) :=
  match (Value.field? entry "parameters").getD (.list []) with
  | .list items =>
      match items.find? fun item => !isParameter item with
      | some item => refuse .methods (.badParameter item)
      | none => .ok items
  | v => refuse .methods (.parametersNotList v)

/-- Whether a value is a line: an integer, or null for no line. -/
def isLine : Value → Bool
  | .null => true
  | .int _ => true
  | _ => false

/-- The place that an entry gives, a file and a line, if it gives a file. -/
def place? (entry : Fields) (part : Part) : Except Fault (Option (String × Value)) :=
  match Value.field? entry "file" with
  | none => .ok none
  | some file =>
      let line := (Value.field? entry "line").getD .null
      if isLine line then (textOf "file" part file).map fun f => some (f, line)
      else refuse part (.lineNotInteger line)

end DocCatalog.Manifest
