/-
**Finding entities in a registry.**

Main definitions:

* `Catalog.lookup?`, `Catalog.lookup`, `Catalog.entityAt`: the entity at a path;
* `Catalog.held`, `Catalog.Filter`: all entities of a registry, of some kinds;
* `Catalog.candidates`, `Catalog.resolve`: a name as seen from inside a namespace.
-/

import DocCatalog.Catalog.Members

set_option autoImplicit false

namespace DocCatalog.Catalog

/-! ### By path -/

/-- The entity at a path; at the empty one it is the root. -/
def lookup? (c : Catalog) (r : Registry) (path : String) : Option EntityId :=
  if path = "" then some (c.root r) else (c.entries r).get? path

/-- The entity at the path that a value is; what is no text is no path. -/
def lookup (c : Catalog) (r : Registry) (path : Value) : Except Fault (Option EntityId) := do
  return (← nameArgument path).bind (c.lookup? r)

/-- The entity at a path, where there must be one. -/
def entityAt (c : Catalog) (r : Registry) (path : Value) : Except Fault EntityId := do
  match ← c.lookup r path with
  | some e => return e
  | none => throw (.absent path)

/-- Whether the value is a path under which an entity is held, which the root is not. -/
def holdsPath (c : Catalog) (r : Registry) (path : Value) : Except Fault Bool := do
  return (← nameArgument path).any (c.entries r).contains

/-- The paths under which entities are held. -/
def paths (c : Catalog) (r : Registry) : List String := (c.entries r).keys

/-! ### By kind -/

/-- What entities are asked for: those of a tag, or those that count as of a kind. -/
inductive Filter where
  | tag (t : String)
  | sort (kind : EntityKind)
  deriving DecidableEq, Repr

/-- Whether a filter admits a kind. -/
def Filter.admits (f : Filter) (kind : EntityKind) : Bool :=
  match f with
  | tag t => kind.tag = t
  | sort other => kind.isSortOf other

/-- The entities of a registry that one of some filters admits; without filters, all. -/
def held (c : Catalog) (r : Registry) (filters : List Filter) : List EntityId :=
  if filters = [] then (c.entries r).values
  else (c.entries r).values.filter fun e => filters.any fun f => f.admits (c.entity e).kind

/-! ### By name -/

/-- The paths that a name may have below a path.  A name that begins with a separator brings its
own; at the top level the name may be a path itself. -/
def candidates (separators : List String) (base name : String) : List String :=
  if separators.any fun s => s.toList.isPrefixOf name.toList then [base ++ name]
  else if base = "" then name :: separators.map fun s => s ++ name
  else separators.map fun s => base ++ s ++ name

/-- The paths of a chain of owners, nearest first. -/
def chainPaths : List Ancestor → List String
  | [] => []
  | a :: rest => lineagePath (a :: rest) :: chainPaths rest

/-- The paths below which a name is looked for from inside a namespace: its own, those of its
owners, and at last the root's. -/
def searchPaths (c : Catalog) (r : Registry) (n? : Option EntityId) : List String :=
  let n := n?.getD (c.root r)
  let x := c.entity n
  let top := (x.lineage.getLast?.map Ancestor.id).getD n
  x.path :: chainPaths x.lineage ++ if top = c.root r then [] else [""]

/-- The order in which separators are tried. -/
def searchSeparators (r : Registry) : List String :=
  [r.separators.nested, r.separators.onInstance, r.separators.onClass]

/-- The entity that a name means from inside a namespace: the first that is held at a path that the
name may have, the nearest namespace first. -/
def resolve (c : Catalog) (r : Registry) (n? : Option EntityId) (name : String) :
    Option EntityId :=
  (c.searchPaths r n?).findSome? fun base =>
    (candidates (searchSeparators r) base name).findSome? (c.entries r).get?

end DocCatalog.Catalog
