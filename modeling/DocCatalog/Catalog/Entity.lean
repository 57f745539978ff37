/-
**Entities: the definitions that a catalog holds.**

An entity is a namespace, a method, or an entry of any other kind.  Its name, its owner and the
registry that it belongs to are settled when it is made, and so is the whole chain of its owners:
that chain travels with the entity as a list of ancestors, nearest first.  The path is computed from
the chain, the name and, for a method, the scope; it is never stored.

Main definitions:

* `EntityId`, `Registry`: how entities and registries are referred to;
* `Ancestor`, `lineagePath`: an owner as its members see it, and the path of a chain of owners;
* `Tables`, `Accessors`: what a namespace keeps about its members;
* `MethodFields`, `Parameter`: what a method keeps;
* `Entity`, `Entity.path`, `Entity.memberKey`: an entity and what identifies it.
-/

import DocCatalog.Config.Basic
import DocCatalog.OrderedTable
import DocCatalog.Value.Sameness
import DocCatalog.Value.Text

set_option autoImplicit false

namespace DocCatalog

/-- A reference to an entity. -/
structure EntityId where
  index : Nat
  deriving DecidableEq, Repr

instance : Inhabited EntityId := ⟨⟨0⟩⟩

/-- A reference to a registry, with its settings, which are settled when it is made. -/
structure Registry where
  index : Nat
  config : Config
  deriving DecidableEq

namespace Registry

instance : Inhabited Registry := ⟨⟨0, default⟩⟩

/-- The separators of the paths in a registry. -/
def separators (r : Registry) : Separators := r.config.separators

end Registry

/-! ### Owners -/

/-- A namespace as its members see it. -/
structure Ancestor where
  id : EntityId
  name : String
  isRoot : Bool
  home : Registry
  deriving DecidableEq

/-- The path of the first of a chain of owners, nearest first.  A root's path is empty, and so is
that of no owner. -/
def lineagePath : List Ancestor → String
  | [] => ""
  | a :: rest => if a.isRoot then "" else a.home.separators.namespacePath a.name (lineagePath rest)

/-! ### What namespaces keep -/

/-- The reader and the writer of an attribute; either may be missing. -/
structure Accessors where
  read : Option EntityId := none
  write : Option EntityId := none
  deriving DecidableEq

/-- The attributes of one scope, by name. -/
abbrev AttributeTable := ValueTable Accessors

/-- What a namespace keeps about its members: the members by name and scope, an attribute table for
each scope, and the names that entities are aliases of.  Producers may leave open which entity is
the alias of a name. -/
structure Tables where
  members : OrderedTable (String × Option Scope) EntityId := ∅
  classAttributes : Option AttributeTable := some ∅
  instanceAttributes : Option AttributeTable := some ∅
  aliases : OrderedTable (Option EntityId) String := ∅

namespace Tables

instance : Inhabited Tables := ⟨{}⟩

/-- The attribute table of a scope, unless it was dropped. -/
def attributes? (t : Tables) : Scope → Option AttributeTable
  | .onClass => t.classAttributes
  | .onInstance => t.instanceAttributes

/-- Replaces the attribute table of a scope. -/
def setAttributes (t : Tables) (s : Scope) (a : Option AttributeTable) : Tables :=
  match s with
  | .onClass => { t with classAttributes := a }
  | .onInstance => { t with instanceAttributes := a }

@[simp] theorem attributes?_setAttributes (t : Tables) (s s' : Scope) (a : Option AttributeTable) :
    (t.setAttributes s a).attributes? s' = if s = s' then a else t.attributes? s' := by
  cases s <;> cases s' <;> rfl

@[simp] theorem members_setAttributes (t : Tables) (s : Scope) (a : Option AttributeTable) :
    (t.setAttributes s a).members = t.members := by cases s <;> rfl

@[simp] theorem aliases_setAttributes (t : Tables) (s : Scope) (a : Option AttributeTable) :
    (t.setAttributes s a).aliases = t.aliases := by cases s <;> rfl

/-- The member of a name: of several the nested namespace, then the method of the instances, then
that of the class. -/
def member? (t : Tables) (name : String) : Option EntityId :=
  (t.members.get? (name, none)).or
    ((t.members.get? (name, some .onInstance)).or (t.members.get? (name, some .onClass)))

end Tables

/-! ### What methods keep -/

/-- A parameter: a name, and a default unless that is null.  Producers are not held to texts. -/
structure Parameter where
  name : Value
  default : Value := .null
  deriving DecidableEq

/-- What a method keeps. -/
structure MethodFields where
  scope : Scope
  visibility : Visibility
  parameters : List Parameter := []
  /-- Whether the method is written out in the source; producers are not held to truth values. -/
  explicit : Value := .null
  deriving DecidableEq

/-! ### Entities -/

/-- The kinds of entity. -/
inductive EntityKind where
  | entry
  | space
  | root
  | method
  deriving DecidableEq, Repr

namespace EntityKind

/-- The tag by which a kind is asked for. -/
def tag : EntityKind → String
  | entry => "entity"
  | space => "namespace"
  | root => "root"
  | method => "method"

/-- The word by which a kind is called in messages. -/
def word : EntityKind → String
  | entry => "Entity"
  | space => "NamespaceEntity"
  | root => "RootNamespace"
  | method => "MethodEntity"

/-- Whether every entity of one kind counts as one of another: all are entries, and a root is a
namespace. -/
def isSortOf (kind other : EntityKind) : Bool :=
  other = .entry || other = kind || (kind = .root && other = .space)

end EntityKind

/-- What an entity is, with what it keeps. -/
inductive Form where
  | entry
  | space (isRoot : Bool) (tables : Tables)
  | method (fields : MethodFields)

/-- A definition. -/
structure Entity where
  name : String
  home : Registry
  /-- The owner and its owners, nearest first. -/
  lineage : List Ancestor
  docstring : Value := .text ""
  /-- Where the definition is found: a file and a line each, the primary place first. -/
  files : List (Value × Value) := []
  form : Form

namespace Entity

instance : Inhabited Entity := ⟨{ name := "", home := default, lineage := [], form := .entry }⟩

/-- The kind of an entity. -/
def kind (e : Entity) : EntityKind :=
  match e.form with
  | .entry => .entry
  | .space isRoot _ => if isRoot then .root else .space
  | .method _ => .method

/-- Whether an entity is a namespace, the root included. -/
def isSpace (e : Entity) : Bool :=
  match e.form with
  | .space _ _ => true
  | _ => false

/-- The namespace that owns an entity. -/
def owner? (e : Entity) : Option EntityId := e.lineage.head?.map Ancestor.id

/-- The path of the owner, empty without one. -/
def ownerPath (e : Entity) : String := lineagePath e.lineage

/-- What a method keeps. -/
def method? (e : Entity) : Option MethodFields :=
  match e.form with
  | .method fields => some fields
  | _ => none

/-- What a namespace keeps. -/
def tables? (e : Entity) : Option Tables :=
  match e.form with
  | .space _ tables => some tables
  | _ => none

/-- The scope of a method. -/
def scope? (e : Entity) : Option Scope := e.method?.map MethodFields.scope

/-- The canonical path. -/
def path (e : Entity) : String :=
  match e.form with
  | .method fields => e.home.separators.methodPath e.name e.ownerPath fields.scope
  | .space isRoot _ =>
      if isRoot then "" else e.home.separators.namespacePath e.name e.ownerPath
  | .entry => e.home.separators.namespacePath e.name e.ownerPath

/-- The key under which the owner lists an entity: its name, and its scope if it is a method. -/
def memberKey (e : Entity) : String × Option Scope := (e.name, e.scope?)

/-- How an entity is shown in messages. -/
def shown (e : Entity) : String :=
  match e.kind with
  | .root => "<" ++ EntityKind.root.word ++ ">"
  | kind => "<" ++ kind.word ++ " " ++ e.path ++ ">"

/-- Changes what a method keeps; other entities stay as they are. -/
def updateMethod (e : Entity) (f : MethodFields → MethodFields) : Entity :=
  match e.form with
  | .method fields => { e with form := .method (f fields) }
  | _ => e

/-- Changes what a namespace keeps; other entities stay as they are. -/
def updateTables (e : Entity) (f : Tables → Tables) : Entity :=
  match e.form with
  | .space isRoot tables => { e with form := .space isRoot (f tables) }
  | _ => e

/-- Records a place in a file, unless the same place is recorded. -/
def addFile (e : Entity) (file line : Value) : Entity :=
  if e.files.any fun p => p.1.agrees file && p.2.agrees line then e
  else { e with files := e.files ++ [(file, line)] }

/-! ### What a change leaves alone -/

@[simp] theorem name_updateTables (e : Entity) (f : Tables → Tables) :
    (e.updateTables f).name = e.name := by unfold updateTables; split <;> rfl

@[simp] theorem home_updateTables (e : Entity) (f : Tables → Tables) :
    (e.updateTables f).home = e.home := by unfold updateTables; split <;> rfl

@[simp] theorem lineage_updateTables (e : Entity) (f : Tables → Tables) :
    (e.updateTables f).lineage = e.lineage := by unfold updateTables; split <;> rfl

@[simp] theorem method?_updateTables (e : Entity) (f : Tables → Tables) :
    (e.updateTables f).method? = e.method? := by
  unfold updateTables
  split
  · next h => simp [method?, h]
  · rfl

@[simp] theorem kind_updateTables (e : Entity) (f : Tables → Tables) :
    (e.updateTables f).kind = e.kind := by
  unfold updateTables
  split
  · next h => simp [kind, h]
  · rfl

@[simp] theorem path_updateTables (e : Entity) (f : Tables → Tables) :
    (e.updateTables f).path = e.path := by
  unfold updateTables
  split
  · next h => simp [path, ownerPath, h]
  · rfl

@[simp] theorem memberKey_updateTables (e : Entity) (f : Tables → Tables) :
    (e.updateTables f).memberKey = e.memberKey := by simp [memberKey, scope?]

@[simp] theorem tables?_updateTables (e : Entity) (f : Tables → Tables) :
    (e.updateTables f).tables? = e.tables?.map f := by
  unfold updateTables
  split
  · next h => simp [tables?, h]
  · next h =>
      cases hf : e.form with
      | space isRoot tables => exact absurd hf (h isRoot tables)
      | _ => simp [tables?, hf]

@[simp] theorem name_updateMethod (e : Entity) (f : MethodFields → MethodFields) :
    (e.updateMethod f).name = e.name := by unfold updateMethod; split <;> rfl

@[simp] theorem home_updateMethod (e : Entity) (f : MethodFields → MethodFields) :
    (e.updateMethod f).home = e.home := by unfold updateMethod; split <;> rfl

@[simp] theorem lineage_updateMethod (e : Entity) (f : MethodFields → MethodFields) :
    (e.updateMethod f).lineage = e.lineage := by unfold updateMethod; split <;> rfl

@[simp] theorem tables?_updateMethod (e : Entity) (f : MethodFields → MethodFields) :
    (e.updateMethod f).tables? = e.tables? := by
  unfold updateMethod
  split
  · next h => simp [tables?, h]
  · rfl

@[simp] theorem kind_updateMethod (e : Entity) (f : MethodFields → MethodFields) :
    (e.updateMethod f).kind = e.kind := by
  unfold updateMethod
  split
  · next h => simp [kind, h]
  · rfl

@[simp] theorem method?_updateMethod (e : Entity) (f : MethodFields → MethodFields) :
    (e.updateMethod f).method? = e.method?.map f := by
  unfold updateMethod
  split
  · next h => simp [method?, h]
  · next h =>
      cases hf : e.form with
      | method fields => exact absurd hf (h fields)
      | _ => simp [method?, hf]

/-! ### Owners of others -/

/-- An entity as the owner of others. -/
def asAncestor (e : Entity) (id : EntityId) : Ancestor where
  id := id
  name := e.name
  isRoot := e.kind = .root
  home := e.home

end Entity

end DocCatalog
