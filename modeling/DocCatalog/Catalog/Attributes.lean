/-
**What a namespace writes down about attributes and aliases.**

Main definitions:

* `Catalog.addAttribute`, `Catalog.dropAttributes`, `Catalog.attributesOf`: attribute tables;
* `Catalog.addAlias`: the alias table.
-/

import DocCatalog.Catalog.Members

set_option autoImplicit false

namespace DocCatalog

/-- Accessors with those given put in the place of their own. -/
def Accessors.extend (a : Accessors) (read write : Option EntityId) : Accessors where
  read := read.or a.read
  write := write.or a.write

/-- A table with an attribute written down, or extended if it is. -/
def AttributeTable.extend (t : AttributeTable) (name : Value) (read write : Option EntityId) :
    AttributeTable :=
  t.put name (((ValueTable.find? t name).getD {}).extend read write)

namespace Catalog

/-- The attributes of a namespace in a scope, each with its name. -/
def attributesOf (c : Catalog) (n : EntityId) (s : Scope) :
    Except Fault (List (Value × Accessors)) :=
  match (c.tables n).attributes? s with
  | some table => .ok table.entries
  | none => .error (.noAttributeTable s)

/-- Writes an attribute down, or extends it, and gives its accessors.  A table that was dropped
comes back empty before the name is looked at. -/
def addAttribute (n : EntityId) (scope name : Value) (read write : Option EntityId) :
    Action Accessors := do
  match Scope.ofValue? scope with
  | none => throw (.notScope scope)
  | some s =>
      let table := ((← get).tables n |>.attributes? s).getD ∅
      Action.change fun c => c.updateTables n fun t => t.setAttributes s (some table)
      match name.unhashableKind? with
      | some kind => throw (.unhashable kind)
      | none =>
          let table := AttributeTable.extend table name read write
          Action.change fun c => c.updateTables n fun t => t.setAttributes s (some table)
          return (table.find? name).getD {}

/-- Drops the whole attribute table of a scope. -/
def dropAttributes (c : Catalog) (n : EntityId) (s : Scope) : Catalog :=
  c.updateTables n fun t => t.setAttributes s none

/-- Writes down that an entity, or none in particular, is an alias of a name. -/
def addAlias (c : Catalog) (n : EntityId) (e? : Option EntityId) (name : Value) : Catalog :=
  c.updateTables n fun t => { t with aliases := t.aliases.insert e? name.display }

end Catalog

end DocCatalog
