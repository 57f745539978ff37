/-
**Entities as plain records.**

A record shows an entity without any reference into the catalog: owners and aliases by their paths,
a method also as it would be declared.  A method whose parameters cannot be declared has no record.

Main definitions:

* `EntityRecord`, `MethodRecord`: records, and `Catalog.record`, the record of an entity;
* `EntityRecord.toValue`: a record as a mapping.
-/

import DocCatalog.Catalog.Methods

set_option autoImplicit false

namespace DocCatalog

/-- What is shown of a method besides what is shown of every entity. -/
structure MethodRecord where
  scope : Scope
  visibility : Visibility
  parameters : List Parameter
  signature : String
  explicit : Bool
  isAttribute : Bool
  isAlias : Bool
  /-- The paths of the entities that are aliases of the method. -/
  aliases : List String
  deriving DecidableEq

/-- What is shown of an entity. -/
structure EntityRecord where
  path : String
  kind : EntityKind
  name : String
  /-- The path of the owner. -/
  namespacePath? : Option String
  docstring : Value
  files : List (Value × Value)
  method? : Option MethodRecord
  deriving DecidableEq

namespace Catalog

/-- What is shown of a method besides what is shown of every entity. -/
def methodRecord (c : Catalog) (e : EntityId) (m : MethodFields) : Except Fault MethodRecord := do
  let signature ← m.signature (c.entity e).name
  return {
    scope := m.scope
    visibility := m.visibility
    parameters := m.parameters
    signature
    explicit := m.isExplicit
    isAttribute := c.isAttribute e
    isAlias := c.isAlias e
    aliases := (c.aliasesOf e).map c.path }

/-- The record of an entity. -/
def record (c : Catalog) (e : EntityId) : Except Fault EntityRecord := do
  let x := c.entity e
  let method? ← match x.method? with
    | some m => (c.methodRecord e m).map some
    | none => pure none
  return {
    path := x.path
    kind := x.kind
    name := x.name
    namespacePath? := x.owner?.map c.path
    docstring := x.docstring
    files := x.files
    method? }

end Catalog

/-! ### Records as mappings -/

/-- Texts as a list. -/
def Value.ofTexts (ss : List String) : Value := .list (ss.map .text)

/-- A method's fields of a record. -/
def MethodRecord.fields (m : MethodRecord) : List (String × Value) := [
  ("scope", .text m.scope.word),
  ("visibility", .text m.visibility.word),
  ("parameters", .list (m.parameters.map fun p => .list [p.name, p.default])),
  ("signature", .text m.signature),
  ("explicit", .bool m.explicit),
  ("attribute", .bool m.isAttribute),
  ("alias", .bool m.isAlias),
  ("aliases", .ofTexts m.aliases)]

/-- A record as a mapping. -/
def EntityRecord.toValue (r : EntityRecord) : Value :=
  .dict ([
    ("path", .text r.path),
    ("type", .text r.kind.tag),
    ("name", .text r.name),
    ("namespace", .ofText? r.namespacePath?),
    ("docstring", r.docstring),
    ("files", .list (r.files.map fun p => .list [p.1, p.2]))]
    ++ (r.method?.map MethodRecord.fields).getD [])

end DocCatalog
