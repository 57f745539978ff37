/-
**Methods: changing and asking.**

The scope of a method is part of its path, so changing it moves the method in its registry and in
its owner's list; all else is a plain field.  What a namespace has written down about its members
tells whether a method reads or writes an attribute, and what it is an alias of.

Main definitions:

* `Catalog.setScope`, `Catalog.setVisibility`, `Catalog.setParameters`: checked changes;
* `Parameter.render`, `MethodFields.signature`: a method as it would be declared;
* `Parameter.Declarable`, `Entity.Declarable`: what can be declared;
* `Catalog.accessors?`, `Catalog.isReader`, `Catalog.isWriter`: attributes;
* `Catalog.isAlias`, `Catalog.aliasesOf`: aliases.
-/

import DocCatalog.Catalog.Registering

set_option autoImplicit false

namespace DocCatalog

/-! ### Parameters -/

namespace Parameter

/-- A parameter as it is given: a name, or a sequence of a name and perhaps a default. -/
def ofItem? : Value → Option Parameter
  | .text s => some ⟨.text s, .null⟩
  | .list [name] => some ⟨name, .null⟩
  | .list [name, default] => some ⟨name, default⟩
  | .tuple [name] => some ⟨name, .null⟩
  | .tuple [name, default] => some ⟨name, default⟩
  | _ => none

/-- Parameters as they are given, one by one. -/
def ofItems (items : List Value) : Except Fault (List Parameter) :=
  items.mapM fun item =>
    match ofItem? item with
    | some p => .ok p
    | none => .error (.badParameter item)

/-- Parameters as they are given: any value with items but a text. -/
def ofValue : Value → Except Fault (List Parameter)
  | .text s => .error (.textParameters (.text s))
  | .list items => ofItems items
  | .tuple items => ofItems items
  | .dict fields => ofItems (fields.map fun p => .text p.1)
  | v => .error (.notIterable v.className)

/-- A parameter as it would be declared.  A name that stands alone must be a text. -/
def render (p : Parameter) : Except Fault String :=
  match p.default with
  | .null =>
      match p.name with
      | .text s => .ok s
      | v => .error (.unprintableName v.className)
  | v => .ok (p.name.display ++ " = " ++ v.display)

/-- A parameter that can be declared: it has a default, or its name is a text. -/
def Declarable (p : Parameter) : Prop := p.default ≠ .null ∨ ∃ s, p.name = .text s

theorem render_ok_iff {p : Parameter} : (∃ s, p.render = .ok s) ↔ p.Declarable := by
  obtain ⟨name, default⟩ := p
  cases default <;> cases name <;> simp [render, Declarable]

end Parameter

namespace MethodFields

/-- A method of a name as it would be declared. -/
def signature (m : MethodFields) (name : String) : Except Fault String := do
  let shown ← m.parameters.mapM Parameter.render
  return name ++ "(" ++ ", ".intercalate shown ++ ")"

/-- Whether the method counts as written out in the source. -/
def isExplicit (m : MethodFields) : Bool := m.explicit.isTruthy

end MethodFields

namespace Entity

/-- An entity whose parameters, if it is a method, can all be declared. -/
def Declarable (x : Entity) : Prop :=
  ∀ m, x.method? = some m → ∀ p ∈ m.parameters, p.Declarable

/-- The name of the attribute that a method would read or write: its own, less one equals sign at
the end. -/
def attributeName (x : Entity) : String :=
  match x.name.toList.getLast? with
  | some '=' => String.ofList x.name.toList.dropLast
  | _ => x.name

/-- The separator before the name of a method. -/
def separator (x : Entity) (scope : Scope) : String :=
  x.home.separators.methodSeparator scope x.ownerPath

/-- The name to show for an entity: for a method of the instances, if asked for, with the separator
before it. -/
def displayName (x : Entity) (prefixed : Bool) : String :=
  match prefixed, x.scope? with
  | true, some scope => x.home.separators.prefixedName x.name (x.separator scope)
  | _, _ => x.name

end Entity

namespace Catalog

/-! ### Scope -/

/-- Writes the scope of a method, and nothing else. -/
def writeScope (c : Catalog) (e : EntityId) (s : Scope) : Catalog :=
  c.update e fun x => x.updateMethod fun m => { m with scope := s }

/-- Moves an entity in its owner's list, if it has an owner. -/
def moveInOwner (c : Catalog) (e : EntityId) (old : String × Option Scope) : Catalog :=
  match (c.entity e).owner? with
  | some owner => c.moveMember owner e old
  | none => c

/-- Gives a method another scope: it moves in its registry and in its owner's list. -/
def rescope (c : Catalog) (e : EntityId) (s : Scope) : Catalog :=
  let old := (c.entity e).memberKey
  let (k, c) := c.openRekey (c.entity e).home e
  ((c.writeScope e s).moveInOwner e old).closeRekey k

/-- Gives a method the scope that a value is or spells; the scope that it has changes nothing. -/
def setScope (e : EntityId) (v : Value) : Action Unit := do
  match Scope.ofValue? v with
  | none => throw (.notScope v)
  | some s =>
      let c ← get
      if (c.entity e).scope? = some s then return () else set (c.rescope e s)

/-! ### Plain fields -/

/-- A step on the fields of a method, which asks nothing of an entity that is none and leaves it as
it is. -/
def whenMethod (e : EntityId) (a : Action Unit) : Action Unit := do
  if (← Action.ask fun c => (c.entity e).method?.isSome) then a

/-- Gives a method the visibility that a value is or spells. -/
def setVisibility (e : EntityId) (v : Value) : Action Unit :=
  match Visibility.ofValue? v with
  | none => throw (.notVisibility v)
  | some w => Action.change fun c =>
      c.update e fun x => x.updateMethod fun m => { m with visibility := w }

/-- Gives a method its parameters. -/
def setParameters (e : EntityId) (v : Value) : Action Unit :=
  match Parameter.ofValue v with
  | .error fault => throw fault
  | .ok ps => Action.change fun c =>
      c.update e fun x => x.updateMethod fun m => { m with parameters := ps }

/-- Says whether a method is written out in the source. -/
def setExplicit (c : Catalog) (e : EntityId) (v : Value) : Catalog :=
  c.update e fun x => x.updateMethod fun m => { m with explicit := v }

/-- Gives an entity its documentation. -/
def setDocstring (c : Catalog) (e : EntityId) (v : Value) : Catalog :=
  c.update e fun x => { x with docstring := v }

/-- Records a place in a file. -/
def addFile (c : Catalog) (e : EntityId) (file line : Value) : Catalog :=
  c.update e fun x => x.addFile file line

/-! ### Attributes and aliases -/

/-- The accessors of the attribute that a method reads or writes, if its owner has declared one. -/
def accessors? (c : Catalog) (e : EntityId) : Option Accessors := do
  let x := c.entity e
  let owner ← x.owner?
  let scope ← x.scope?
  let table ← (c.tables owner).attributes? scope
  table.find? (.text x.attributeName)

/-- Whether a method bears the name of a declared attribute. -/
def isAttribute (c : Catalog) (e : EntityId) : Bool := (c.accessors? e).isSome

/-- Whether a method is the reader of its attribute. -/
def isReader (c : Catalog) (e : EntityId) : Bool := (c.accessors? e).any fun a => a.read = some e

/-- Whether a method is the writer of its attribute. -/
def isWriter (c : Catalog) (e : EntityId) : Bool := (c.accessors? e).any fun a => a.write = some e

/-- Whether the owner has a method down as an alias. -/
def isAlias (c : Catalog) (e : EntityId) : Bool :=
  match (c.entity e).owner? with
  | some owner => (c.tables owner).aliases.contains (some e)
  | none => false

/-- The entities that the owner has down as aliases of a method's name, and that have its scope. -/
def aliasesOf (c : Catalog) (e : EntityId) : List EntityId :=
  let x := c.entity e
  match x.owner? with
  | some owner =>
      let down := (c.tables owner).aliases.toList.filter fun p => p.2 = x.name
      (down.filterMap Prod.fst).filter fun a => a ≠ e && (c.entity a).scope? = x.scope?
  | none => []

end Catalog

end DocCatalog
