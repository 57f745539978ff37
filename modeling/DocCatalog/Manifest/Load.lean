/-
**Loading a manifest into a registry.**

The sections are applied in their order and the entries of each in theirs, so that attributes and
aliases may refer to any method of the manifest.  Namespaces that are missing on the way are made.
A manifest that is refused leaves what was built before the refusal.

Main definitions:

* `Catalog.ensureNamespace`: the namespace at a path, made if need be;
* `Manifest.annotate`, `Manifest.describe`: what an entry says about an entity, and about a method;
* `Manifest.loadNamespace`, `loadMethod`, `loadAttribute`, `loadAlias`: one entry of each section;
* `Manifest.load`, `Manifest.loadFresh`: a whole manifest.
-/

import DocCatalog.Catalog.Attributes
import DocCatalog.Catalog.Lookup
import DocCatalog.Catalog.Making
import DocCatalog.Catalog.Methods
import DocCatalog.Manifest.Entry
import DocCatalog.Text.Split

set_option autoImplicit false

namespace DocCatalog

namespace Catalog

/-! ### Namespaces on the way -/

/-- The segments of a namespace path. -/
def segments (r : Registry) (path : String) : List String :=
  (Text.split r.separators.nested.toList path.toList).map String.ofList

/-- The namespace of a name among the members of another, if the member that the name finds is
one. -/
def nestedSpace? (c : Catalog) (n : EntityId) (name : String) : Option EntityId :=
  ((c.tables n).member? name).filter fun e => (c.entity e).isSpace

/-- The namespace of a name among the members of another, made and registered if need be. -/
def ensureNested (r : Registry) (n : EntityId) (name : String) : Action EntityId := do
  match (← get).nestedSpace? n name with
  | some e => return e
  | none =>
      let e ← makeSpace { owner? := some n, name := .text name }
      register r e
      return e

/-- The namespace at a path, from its first segment on; the empty path is the root's.  A segment
must not be empty. -/
def ensureNamespace (r : Registry) (path : String) : Action EntityId := do
  let root := (← get).root r
  if path = "" then return root
  else
    (segments r path).foldlM (fun n name =>
      if name = "" then throw (.manifest (.emptySegment path) (some .namespaces))
      else ensureNested r n name) root

end Catalog

namespace Manifest

/-! ### Entries -/

/-- The method at a path. -/
def methodAt (c : Catalog) (r : Registry) (path : String) (part : Part) :
    Except Fault EntityId :=
  match c.lookup? r path with
  | none => refuse part (.noMethod path)
  | some e =>
      if (c.entity e).kind = .method then .ok e else refuse part (.notMethod path)

/-- The method at a path that may be missing. -/
def methodAt? (c : Catalog) (r : Registry) (path? : Option String) (part : Part) :
    Except Fault (Option EntityId) :=
  match path? with
  | none => .ok none
  | some path => (methodAt c r path part).map some

/-- Gives an entity the documentation of an entry. -/
def document (e : EntityId) (entry : Fields) (part : Part) : Action Unit := do
  if (Value.field? entry "docstring").isSome then
    let docstring ← text entry "docstring" part
    Action.change fun c => c.setDocstring e (.text docstring)

/-- Gives an entity the place of an entry. -/
def locate (e : EntityId) (entry : Fields) (part : Part) : Action Unit := do
  match ← place? entry part with
  | some (file, line) => Action.change fun c => c.addFile e (.text file) line
  | none => return ()

/-- Gives an entity the documentation and the place of an entry. -/
def annotate (e : EntityId) (entry : Fields) (part : Part) : Action Unit := do
  document e entry part
  locate e entry part

/-- An entry of the section of namespaces. -/
def loadNamespace (r : Registry) (entry : Fields) : Action Unit := do
  let n ← Catalog.ensureNamespace r (← text entry "path" .namespaces)
  annotate n entry .namespaces

/-- The scope that an entry gives; without one, that of the instances. -/
def scopeField (entry : Fields) : Value := (Value.field? entry "scope").getD (.text "instance")

/-- Gives a method the visibility of an entry. -/
def expose (m : EntityId) (entry : Fields) : Action Unit :=
  match Value.field? entry "visibility" with
  | some v => Catalog.setVisibility m v
  | none => pure ()

/-- Gives a method all that an entry says about it. -/
def describe (m : EntityId) (entry : Fields) : Action Unit := do
  expose m entry
  Catalog.setParameters m (.list (← parameters entry))
  Action.change fun c => c.setExplicit m ((Value.field? entry "explicit").getD .null)
  annotate m entry .methods

/-- An entry of the section of methods.  The method is listed in its namespace when it is made, and
registered when all of the entry is found right. -/
def loadMethod (r : Registry) (entry : Fields) : Action Unit := do
  let n ← Catalog.ensureNamespace r (← textOr "" entry "namespace" .methods)
  let name ← text entry "name" .methods
  let m ← Catalog.makeMethod { owner? := some n, name := .text name } (scopeField entry)
  describe m entry
  Catalog.register r m

/-- An entry of the section of attributes. -/
def loadAttribute (r : Registry) (entry : Fields) : Action Unit := do
  let n ← Catalog.ensureNamespace r (← textOr "" entry "namespace" .attributes)
  let name ← text entry "name" .attributes
  let read ← methodAt? (← get) r (← textOrNull entry "read" .attributes) .attributes
  let write ← methodAt? (← get) r (← textOrNull entry "write" .attributes) .attributes
  let _ ← Catalog.addAttribute n (scopeField entry) (.text name) read write

/-- An entry of the section of aliases. -/
def loadAlias (r : Registry) (entry : Fields) : Action Unit := do
  let n ← Catalog.ensureNamespace r (← textOr "" entry "namespace" .aliases)
  let m ← methodAt (← get) r (← text entry "method" .aliases) .aliases
  let name ← text entry "aliases" .aliases
  Action.change fun c => c.addAlias n (some m) (.text name)

/-- An entry of a section. -/
def loadEntry (r : Registry) : Part → Fields → Action Unit
  | .namespaces => loadNamespace r
  | .methods => loadMethod r
  | .attributes => loadAttribute r
  | .aliases => loadAlias r

/-! ### Manifests -/

/-- A section of a manifest, which is looked at when its turn comes. -/
def loadPart (r : Registry) (fields : Fields) (part : Part) : Action Unit := do
  (← entriesOf fields part).forM (loadEntry r part)

/-- The sections of a manifest. -/
def loadParts (r : Registry) (fields : Fields) : Action Unit := do
  Part.all.forM (loadPart r fields)
  Action.change fun c => c.note r (.loaded (c.entries r).size)

/-- A manifest into a registry. -/
def load (r : Registry) (data : Value) : Action Unit := do
  loadParts r (← sections data)

/-- A manifest into a new registry with the settings that need not be given. -/
def loadFresh (data : Value) : Action Registry := do
  let fields ← sections data
  let (r, c) := (← get).openRegistry default
  set c
  loadParts r fields
  return r

end Manifest

end DocCatalog
