/-
**Writing to a registry.**

A registry holds at most one entity at a path.  Registering an entity lists it in its owner too, and
deleting it strikes it off there; an entity whose path is about to change is taken out before and
put back after, at the path that it then has.

Main definitions:

* `Catalog.register`, `Catalog.delete`: putting an entity at its path and taking it away;
* `Catalog.Rekeying`, `Catalog.openRekey`, `Catalog.closeRekey`: the two ends of a change of path;
* `Catalog.rekey`: any work between the two ends;
* `Catalog.openRegistry`, `Catalog.clear`: a registry at its beginning and begun again.
-/

import DocCatalog.Catalog.Members

set_option autoImplicit false

namespace DocCatalog.Catalog

/-! ### Entities at their paths -/

/-- Puts an entity at its path and in its owner's list, whoever was there. -/
def enter (c : Catalog) (r : Registry) (e : EntityId) : Catalog :=
  let path := c.path e
  let event := match (c.entries r).get? path with
    | some previous =>
        if previous = e then .registered path else .replaced (c.entity previous).shown path
    | none => .registered path
  (((c.updateEntries r fun t => t.insert path e).adoptByOwner e).note r event)

/-- Puts an entity at its path in its own registry; another registry refuses it. -/
def register (r : Registry) (e : EntityId) : Action Unit := do
  let c ← get
  if (c.entity e).home = r then set (c.enter r e) else throw (.foreign (c.entity e).shown)

/-- Whether a registry holds an entity at the entity's path. -/
def isRegistered (c : Catalog) (r : Registry) (e : EntityId) : Bool :=
  (c.entries r).get? (c.path e) = some e

/-- Takes an entity away from its path and off its owner's list, unless the path is vacant or
another's. -/
def delete (c : Catalog) (r : Registry) (e : EntityId) : Catalog :=
  let path := c.path e
  if c.isRegistered r e then
    ((c.updateEntries r fun t => t.erase path).dismissByOwner e).note r (.deleted path)
  else c

/-! ### Changes of path -/

/-- A change of path that has begun: where the entity was, if it was registered at all. -/
structure Rekeying where
  registry : Registry
  entity : EntityId
  oldPath : String
  wasRegistered : Bool

/-- Begins a change of path: takes the entity away from its old path. -/
def openRekey (c : Catalog) (r : Registry) (e : EntityId) : Rekeying × Catalog :=
  let path := c.path e
  let registered := c.isRegistered r e
  (⟨r, e, path, registered⟩,
    if registered then c.updateEntries r fun t => t.erase path else c)

/-- Ends a change of path: puts an entity that was taken away at the path that it has now. -/
def closeRekey (c : Catalog) (k : Rekeying) : Catalog :=
  if k.wasRegistered then
    let path := c.path k.entity
    (c.updateEntries k.registry fun t => t.insert path k.entity).note k.registry
      (.rekeyed k.oldPath path)
  else c

/-- Any work between the two ends of a change of path.  The change ends also if the work fails. -/
def rekey {α : Type} (r : Registry) (e : EntityId) (body : Action α) : Action α := fun c =>
  let (k, begun) := c.openRekey r e
  let (result, worked) := body begun
  (result, worked.closeRekey k)

/-! ### Registries -/

/-- The root of a registry, as it is made. -/
def newRoot (r : Registry) : Entity where
  name := ""
  home := r
  lineage := []
  form := .space true {}

/-- A new registry with nothing in it but its root. -/
def openRegistry (c : Catalog) (config : Config) : Registry × Catalog :=
  let r : Registry := ⟨c.stock.size, config⟩
  let (root, c) := c.add (newRoot r)
  (r, { c with stock := c.stock.push { root } })

/-- Begins a registry again: nothing in it but a new root. -/
def clear (c : Catalog) (r : Registry) : Catalog :=
  let (root, c) := c.add (newRoot r)
  c.updateHoldings r fun _ => { root }

end DocCatalog.Catalog
