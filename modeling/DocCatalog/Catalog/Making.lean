/-
**Making entities.**

A new entity belongs to the registry that it is given, or else to its owner's, and is listed in its
owner at once; it is not registered.  A name may be any value and is kept as its text.

Main definitions:

* `Catalog.makeEntry`, `Catalog.makeSpace`, `Catalog.makeMethod`: new entities of the three forms.
-/

import DocCatalog.Catalog.Registering

set_option autoImplicit false

namespace DocCatalog.Catalog

/-- What a new entity is given besides its form: an owner and a registry, at least one of them, a
name, and its documentation. -/
structure Origin where
  owner? : Option EntityId
  name : Value
  registry? : Option Registry := none
  docstring : Value := .text ""

/-- The registry that a new entity belongs to. -/
def homeOf? (c : Catalog) (o : Origin) : Option Registry :=
  o.registry?.or (o.owner?.map fun n => (c.entity n).home)

/-- The chain of owners of a new entity. -/
def lineageOf (c : Catalog) (owner? : Option EntityId) : List Ancestor :=
  match owner? with
  | some n => (c.entity n).asAncestor n :: (c.entity n).lineage
  | none => []

/-- A new entity of a kind, its form depending on the registry that it belongs to. -/
def make (kind : EntityKind) (form : Registry → Form) (o : Origin) : Action EntityId := do
  let c ← get
  match c.homeOf? o with
  | none => throw (.homeless kind o.name)
  | some home =>
      let (e, c) := c.add {
        name := o.name.display
        home
        lineage := c.lineageOf o.owner?
        docstring := o.docstring
        form := form home }
      set (c.adoptByOwner e)
      return e

/-- A new entry that is neither a namespace nor a method. -/
def makeEntry (o : Origin) : Action EntityId := make .entry (fun _ => .entry) o

/-- A new namespace. -/
def makeSpace (o : Origin) : Action EntityId := make .space (fun _ => .space false {}) o

/-- A new method, of the visibility that its registry gives to new methods.  A scope that is none is
refused before all else. -/
def makeMethod (o : Origin) (scope : Value) : Action EntityId :=
  match Scope.ofValue? scope with
  | none => throw (.notScope scope)
  | some s =>
      make .method (fun home => .method { scope := s, visibility := home.config.visibility }) o

end DocCatalog.Catalog
