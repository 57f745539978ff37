/-
**A registry as a listing and as a table.**

Both show the entities of a registry, or those of some kinds, in the order of their paths by code
points; of entities with one path the one that was registered first comes first.

Main definitions:

* `Catalog.inOrder`: the entities shown, in their order;
* `Listing`, `Catalog.listing`: their records, with how many there are;
* `Sheet`, `Catalog.sheet`: a row for each.
-/

import DocCatalog.Catalog.Lookup
import DocCatalog.Export.Record

set_option autoImplicit false

namespace DocCatalog

/-- The records of a registry, or of some kinds of its entities. -/
structure Listing where
  /-- How many entities the registry holds. -/
  total : Nat
  records : List EntityRecord
  deriving DecidableEq

/-- A listing as a mapping. -/
def Listing.toValue (l : Listing) : Value :=
  .dict [
    ("context", .dict [("total_entities", .int l.total), ("exported", .int l.records.length)]),
    ("entities", .list (l.records.map EntityRecord.toValue))]

/-- A table of texts. -/
structure Sheet where
  title : String
  header : List String
  rows : List (List String)
  deriving DecidableEq

/-- A row of the table of a registry. -/
structure Row where
  path : String
  tag : String
  visibility : String := ""
  signature : String := ""
  flags : List String := []
  deriving DecidableEq

/-- The columns of the table of a registry. -/
def Row.header : List String := ["Path", "Type", "Visibility", "Signature", "Flags"]

/-- The cells of a row, in the order of the columns. -/
def Row.cells (r : Row) : List String :=
  [r.path, r.tag, r.visibility, r.signature, ", ".intercalate r.flags]

namespace Catalog

/-- The entities of a registry that some filters admit, in the order of their paths. -/
def inOrder (c : Catalog) (r : Registry) (filters : List Filter) : List EntityId :=
  (c.held r filters).mergeSort fun a b => !decide (c.path b < c.path a)

/-- The listing of a registry. -/
def listing (c : Catalog) (r : Registry) (filters : List Filter) : Except Fault Listing := do
  let records ← (c.inOrder r filters).mapM c.record
  return { total := (c.entries r).size, records }

/-- What is remarkable about a method. -/
def flags (c : Catalog) (e : EntityId) (m : MethodFields) : List String :=
  (if m.isExplicit then ["explicit"] else [])
    ++ (if c.isAttribute e then ["attr"] else [])
    ++ (if c.isAlias e then ["alias"] else [])

/-- The row of an entity. -/
def row (c : Catalog) (e : EntityId) : Except Fault Row := do
  let x := c.entity e
  match x.method? with
  | some m =>
      let signature ← m.signature x.name
      return {
        path := x.path
        tag := x.kind.tag
        visibility := m.visibility.word
        signature
        flags := c.flags e m }
  | none => return { path := x.path, tag := x.kind.tag }

/-- The title of the table of a registry, unless another is given. -/
def sheetTitle (c : Catalog) (r : Registry) : String :=
  "Registry (" ++ toString (c.entries r).size ++ " entities)"

/-- The table of a registry; an empty title counts as none. -/
def sheet (c : Catalog) (r : Registry) (filters : List Filter) (title : String) :
    Except Fault Sheet := do
  let rows ← (c.inOrder r filters).mapM c.row
  return {
    title := if title = "" then c.sheetTitle r else title
    header := Row.header
    rows := rows.map Row.cells }

/-- How a registry is shown in messages. -/
def shownRegistry (c : Catalog) (r : Registry) : String :=
  "<Registry " ++ toString (c.entries r).size ++ " entities>"

end Catalog

end DocCatalog
