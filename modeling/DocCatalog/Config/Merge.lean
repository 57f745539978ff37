/-
**Writing a layer of settings over the layers below it.**

A layer is a mapping, or whatever stands in the place of one in a configuration file: any sequence
of pairs will do, a pair being any sequence of two.  Its fields are written one after the other, so
of two with one key the later wins.

Main definitions:

* `Config.Merge.Problem`: why a value is no mapping and no sequence of pairs;
* `Config.Merge.fieldsOf`: the fields of a layer;
* `Config.Merge.update`: the settings below with a layer written over them.
-/

import DocCatalog.Value.Sameness

set_option autoImplicit false

namespace DocCatalog.Config.Merge

/-- Why a value gives no fields. -/
inductive Problem where
  /-- The value, of the class given, has no items. -/
  | notIterable (className : String)
  /-- The item at a position has none. -/
  | notSequence (position : Nat)
  /-- The item at a position has not two. -/
  | wrongLength (position length : Nat)
  /-- The key is of a kind that can be no key. -/
  | unhashable (kind : String)
  deriving DecidableEq

/-- The text of a problem. -/
def Problem.message : Problem → String
  | notIterable className => "'" ++ className ++ "' object is not iterable"
  | notSequence i => "cannot convert dictionary update sequence element #" ++ toString i
      ++ " to a sequence"
  | wrongLength i n => "dictionary update sequence element #" ++ toString i ++ " has length "
      ++ toString n ++ "; 2 is required"
  | unhashable kind => "unhashable type: '" ++ kind ++ "'"

/-- The items of a value, of which a text has its characters and a mapping its keys. -/
def items? : Value → Option (List Value)
  | .list items => some items
  | .tuple items => some items
  | .text s => some (s.toList.map fun c => .text c.toString)
  | .dict fields => some (fields.map fun p => .text p.1)
  | _ => none

/-- The item at a position as a pair of a key and a value. -/
def pairOf (position : Nat) (item : Value) : Except Problem (Value × Value) :=
  match items? item with
  | none => .error (.notSequence position)
  | some [key, value] =>
      match key.unhashableKind? with
      | some kind => .error (.unhashable kind)
      | none => .ok (key, value)
  | some items => .error (.wrongLength position items.length)

/-- Items from a position on as pairs; the first that is none is the one reported. -/
def pairsFrom : Nat → List Value → Except Problem (List (Value × Value))
  | _, [] => .ok []
  | position, item :: rest => do
      let pair ← pairOf position item
      let pairs ← pairsFrom (position + 1) rest
      return pair :: pairs

/-- The fields of a layer. -/
def fieldsOf (layer : Value) : Except Problem (List (Value × Value)) :=
  match layer with
  | .dict fields => .ok (fields.map fun p => (.text p.1, p.2))
  | _ =>
      match items? layer with
      | some items => pairsFrom 0 items
      | none => .error (.notIterable layer.className)

/-- Settings with fields written over them. -/
def writeAll (below : ValueTable Value) (fields : List (Value × Value)) : ValueTable Value :=
  fields.foldl (fun t p => t.put p.1 p.2) below

/-- Settings with a layer written over them. -/
def update (below : ValueTable Value) (layer : Value) : Except Problem (ValueTable Value) :=
  (fieldsOf layer).map (writeAll below)

end DocCatalog.Config.Merge
