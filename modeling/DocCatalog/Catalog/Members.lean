/-
**Members of a namespace.**

A namespace lists its members by name and scope; a slot that is taken again goes to the newcomer.

Main definitions:

* `Catalog.adopt`, `Catalog.dismiss`, `Catalog.moveMember`: writing the list;
* `Scope.ofValue`, `Visibility.ofValue`: what a value is or spells, or why it is refused;
* `Catalog.members`, `Catalog.child`, `Catalog.methods`: reading the list.
-/

import DocCatalog.Access.Spelling
import DocCatalog.Catalog.Basic

set_option autoImplicit false

namespace DocCatalog

/-- The scope that a value is or spells; any other value is refused. -/
def Scope.ofValue (v : Value) : Except Fault Scope :=
  (Scope.ofValue? v).elim (.error (.notScope v)) .ok

/-- The visibility that a value is or spells; any other value is refused. -/
def Visibility.ofValue (v : Value) : Except Fault Visibility :=
  (Visibility.ofValue? v).elim (.error (.notVisibility v)) .ok

namespace Catalog

/-! ### Writing -/

/-- Lists an entity in a namespace. -/
def adopt (c : Catalog) (owner e : EntityId) : Catalog :=
  c.updateTables owner fun t => { t with members := t.members.insert (c.entity e).memberKey e }

/-- Lists an entity in its owner, if it has one. -/
def adoptByOwner (c : Catalog) (e : EntityId) : Catalog :=
  match (c.entity e).owner? with
  | some owner => c.adopt owner e
  | none => c

/-- Strikes an entity off a namespace, if it is the one listed under its key. -/
def dismiss (c : Catalog) (owner e : EntityId) : Catalog :=
  let key := (c.entity e).memberKey
  if (c.tables owner).members.get? key = some e then
    c.updateTables owner fun t => { t with members := t.members.erase key }
  else c

/-- Strikes an entity off its owner, if it has one. -/
def dismissByOwner (c : Catalog) (e : EntityId) : Catalog :=
  match (c.entity e).owner? with
  | some owner => c.dismiss owner e
  | none => c

/-- Moves an entity from the key under which it was listed to the one that it has now.  An entity
that has lost its old slot gets no new one. -/
def moveMember (c : Catalog) (owner e : EntityId) (old : String × Option Scope) : Catalog :=
  if (c.tables owner).members.get? old = some e then
    c.updateTables owner fun t =>
      { t with members := (t.members.erase old).insert (c.entity e).memberKey e }
  else c

/-! ### Reading -/

/-- The members of a namespace, in the order in which their slots were taken. -/
def members (c : Catalog) (n : EntityId) : List EntityId := (c.tables n).members.values

/-- A scope as an argument: null asks for none. -/
def scopeArgument (v : Value) : Except Fault (Option Scope) :=
  match v with
  | .null => .ok none
  | _ => (Scope.ofValue v).map some

/-- A visibility as an argument: null asks for none. -/
def visibilityArgument (v : Value) : Except Fault (Option Visibility) :=
  match v with
  | .null => .ok none
  | _ => (Visibility.ofValue v).map some

/-- A value as a name to look up: what is no text names nothing, and what is no key is a fault. -/
def nameArgument (v : Value) : Except Fault (Option String) :=
  match v.unhashableKind? with
  | some kind => .error (.unhashable kind)
  | none => .ok v.text?

/-- The member of a name and a scope; without a scope, the member that the name alone finds. -/
def child (c : Catalog) (n : EntityId) (name : Value) (scope : Value) :
    Except Fault (Option EntityId) := do
  let scope? ← scopeArgument scope
  let name? ← nameArgument name
  return name?.bind fun name =>
    match scope? with
    | some s => (c.tables n).members.get? (name, some s)
    | none => (c.tables n).member? name

/-- Whether an entity is a method, of a scope and of a visibility where these are asked for. -/
def isMethodOf (x : Entity) (scope? : Option Scope) (visibility? : Option Visibility) : Bool :=
  match x.method? with
  | some m => scope?.all (· = m.scope) && visibility?.all (· = m.visibility)
  | none => false

/-- The methods of a namespace, of a scope and of a visibility where these are asked for. -/
def methods (c : Catalog) (n : EntityId) (scope visibility : Value) :
    Except Fault (List EntityId) := do
  let scope? ← scopeArgument scope
  let visibility? ← visibilityArgument visibility
  return (c.members n).filter fun e => isMethodOf (c.entity e) scope? visibility?

end Catalog

end DocCatalog
