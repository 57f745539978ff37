/-
**An export as a manifest.**

What is exported of a namespace can be written as entries of a manifest, one for each of its places,
and what is exported of a method as one entry.  The fields are taken over as they are exported, so it
is the readers of the manifest that must understand them: the word of a scope, parameters as lists of
a name and a default, a line that may be null, a truth value where any value may stand.

Main definitions:

* `Manifest.manifestOf`: an export as a manifest;
* `Manifest.spaceEntry`, `Manifest.methodEntry`: the entries of a namespace and of a method;
* `MethodRecord.said`: a method as it is exported.

Main results:

* `Manifest.legible_spaceEntry`, `Manifest.legible_methodEntry`: **the entries can be read**;
* `Manifest.methodProfile?_methodEntry`: **the entry of a method says what is exported of it**.
-/

import DocCatalog.Proofs.Manifest.Fresh
import DocCatalog.Proofs.Manifest.Sections

set_option autoImplicit false

namespace DocCatalog

open Catalog

namespace Manifest

/-! ### Entries of an export -/

/-- The fields of some keys, as they are. -/
def picked (keys : List String) (fields : Fields) : Fields :=
  keys.filterMap fun key => (Value.field? fields key).map fun v => (key, v)

/-- A place as it is listed: a file and a line. -/
def placeOfItem? : Value → Option (Value × Value)
  | .list [file, line] => some (file, line)
  | _ => none

/-- The places that an exported entity lists. -/
def placesOf (fields : Fields) : List (Value × Value) :=
  match Value.field? fields "files" with
  | some (.list items) => items.filterMap placeOfItem?
  | _ => []

/-- Fields with those of a place, if there is one. -/
def withPlace (fields : Fields) (place? : Option (Value × Value)) : Fields :=
  fields ++ (place?.map fun place => [("file", place.1), ("line", place.2)]).getD []

/-- Each of some places, or once none. -/
def placesOrNone : List (Value × Value) → List (Option (Value × Value))
  | [] => [none]
  | places => places.map some

/-- The entries of an exported entity, if it is a namespace: one for each place, or one without. -/
def spaceEntriesOf (fields : Fields) : List Fields :=
  if Value.field? fields "type" = some (.text EntityKind.space.tag) then
    (placesOrNone (placesOf fields)).map (withPlace (picked ["path", "docstring"] fields))
  else []

/-- The entry of an exported entity, if it is a method, with its place if it has one. -/
def methodEntriesOf (fields : Fields) : List Fields :=
  if Value.field? fields "type" = some (.text EntityKind.method.tag) then
    [withPlace (picked ["namespace", "name", "scope", "visibility", "parameters", "explicit",
      "docstring"] fields) (placesOf fields).head?]
  else []

/-- The entities of an export. -/
def entitiesOf : Value → List Fields
  | .dict fields =>
      match Value.field? fields "entities" with
      | some (.list items) => items.filterMap entryOf?
      | _ => []
  | _ => []

/-- An export as a manifest. -/
def manifestOf (exported : Value) : Value :=
  ofSections [.namespaces, .methods] fun
    | .namespaces => (entitiesOf exported).flatMap spaceEntriesOf
    | .methods => (entitiesOf exported).flatMap methodEntriesOf
    | _ => []

/-- An entry of a namespace. -/
def spaceEntry (path : String) (docstring : Value) (place? : Option (Value × Value)) : Fields :=
  withPlace [("path", .text path), ("docstring", docstring)] place?

/-- The entry of a method. -/
def methodEntry (space name : String) (m : MethodRecord) (docstring : Value)
    (place? : Option (Value × Value)) : Fields :=
  withPlace [("namespace", .text space), ("name", .text name), ("scope", .text m.scope.word),
    ("visibility", .text m.visibility.word),
    ("parameters", .list (m.parameters.map fun p => .list [p.name, p.default])),
    ("explicit", .bool m.explicit), ("docstring", docstring)] place?

end Manifest

/-! ### What is exported of an entity -/

/-- The fields of a record. -/
def EntityRecord.fields (x : EntityRecord) : Manifest.Fields :=
  [("path", .text x.path), ("type", .text x.kind.tag), ("name", .text x.name),
    ("namespace", .ofText? x.namespacePath?), ("docstring", x.docstring),
    ("files", .list (x.files.map fun p => .list [p.1, p.2]))]
    ++ (x.method?.map MethodRecord.fields).getD []

/-- A method as it is exported. -/
def MethodRecord.said (m : MethodRecord) : MethodFields where
  scope := m.scope
  visibility := m.visibility
  parameters := m.parameters
  explicit := .bool m.explicit

theorem Catalog.said_of_methodRecord {c : Catalog} {e : EntityId} {m : MethodFields}
    {shown : MethodRecord} (h : c.methodRecord e m = .ok shown) : shown.said = m.shown := by
  unfold methodRecord at h
  cases hs : m.signature (c.entity e).name with
  | error fault => rw [hs] at h; cases h
  | ok signature =>
      rw [hs] at h
      rw [← Except.ok.inj h]
      rfl

namespace Manifest

variable {x : EntityRecord} {m : MethodRecord}

theorem filterMap_placesOrNone (places : List (Value × Value)) :
    (placesOrNone places).filterMap id = places := by
  cases places <;> simp [placesOrNone]

theorem placesOrNone_ne_nil (places : List (Value × Value)) : placesOrNone places ≠ [] := by
  cases places <;> simp [placesOrNone]

theorem mem_of_mem_placesOrNone {places : List (Value × Value)} {place : Value × Value}
    (h : some place ∈ placesOrNone places) : place ∈ places := by
  rw [← filterMap_placesOrNone places]
  exact List.mem_filterMap.2 ⟨_, h, rfl⟩

theorem entitiesOf_toValue (l : Listing) :
    entitiesOf l.toValue = l.records.map EntityRecord.fields := by
  have hentry : ∀ x : EntityRecord, entryOf? x.toValue = some x.fields := fun _ => rfl
  show (l.records.map EntityRecord.toValue).filterMap entryOf? = _
  rw [List.filterMap_map, show entryOf? ∘ EntityRecord.toValue = some ∘ EntityRecord.fields from
    funext hentry, ← List.filterMap_eq_map]

theorem placesOf_fields (x : EntityRecord) : placesOf x.fields = x.files := by
  show (x.files.map fun p => Value.list [p.1, p.2]).filterMap placeOfItem? = _
  rw [List.filterMap_map]
  exact List.filterMap_some

theorem type_fields (x : EntityRecord) :
    Value.field? x.fields "type" = some (.text x.kind.tag) := rfl

theorem spaceEntriesOf_of_space (hkind : x.kind = .space) :
    spaceEntriesOf x.fields = (placesOrNone x.files).map (spaceEntry x.path x.docstring) := by
  rw [spaceEntriesOf, if_pos (by rw [type_fields, hkind]), placesOf_fields]
  rfl

theorem spaceEntriesOf_of_method (hkind : x.kind = .method) : spaceEntriesOf x.fields = [] := by
  rw [spaceEntriesOf, if_neg (by rw [type_fields, hkind]; decide)]

theorem methodEntriesOf_of_space (hkind : x.kind = .space) : methodEntriesOf x.fields = [] := by
  rw [methodEntriesOf, if_neg (by rw [type_fields, hkind]; decide)]

theorem methodEntriesOf_of_method (hkind : x.kind = .method) (hm : x.method? = some m)
    {space : String} (hspace : x.namespacePath? = some space) :
    methodEntriesOf x.fields = [methodEntry space x.name m x.docstring x.files.head?] := by
  rw [methodEntriesOf, if_pos (by rw [type_fields, hkind]), placesOf_fields, EntityRecord.fields,
    hm, hspace]
  rfl

/-! ### Reading the entries -/

variable {entry fields : Fields} {part : Part} {key : String} {place? : Option (Value × Value)}

/-- Whether documentation and place can be read is a matter of what they are said to be. -/
theorem annotated_iff : Annotated part entry ↔ (∀ v, docstringOf? entry = some v → ∃ s, v = .text s) ∧
    ∀ place, placeOf? entry = some place → IsPlace place := by
  constructor
  · rintro ⟨hdocstring, p, hp⟩
    refine ⟨fun v hv => ?_, fun place => isPlace_of_place? hp⟩
    obtain ⟨s, hs⟩ := hdocstring (Option.isSome_iff_exists.2 ⟨v, hv⟩)
    exact ⟨s, Option.some.inj (hv.symm.trans (text_eq_ok hs))⟩
  · rintro ⟨hdocstring, hplace⟩
    constructor
    · intro hsome
      obtain ⟨v, hv⟩ := Option.isSome_iff_exists.1 hsome
      obtain ⟨s, rfl⟩ := hdocstring v hv
      exact ⟨s, by rw [text, hv]; rfl⟩
    · cases hf : Value.field? entry "file" with
      | none => exact ⟨none, by rw [place?, hf]⟩
      | some file =>
          obtain ⟨⟨f, hfile⟩, hline⟩ := hplace _ (by rw [placeOf?, hf]; rfl)
          dsimp only at hfile hline
          subst hfile
          refine ⟨some (f, (Value.field? entry "line").getD .null), ?_⟩
          rw [Manifest.place?, hf]
          simp only [hline, if_true]
          rfl

theorem field?_withPlace (hfile : key ≠ "file") (hline : key ≠ "line") :
    Value.field? (withPlace fields place?) key = Value.field? fields key := by
  cases place? with
  | none => simp [withPlace]
  | some place => simp [withPlace, Value.field?, List.find?_append, hfile.symm, hline.symm]

theorem placeOf?_withPlace (hfile : Value.field? fields "file" = none)
    (hline : Value.field? fields "line" = none) : placeOf? (withPlace fields place?) = place? := by
  cases place? with
  | none => simp [withPlace, placeOf?, hfile]
  | some place =>
      have hat : ∀ key, Value.field? fields key = none →
          Value.field? (withPlace fields (some place)) key =
            Value.field? [("file", place.1), ("line", place.2)] key := by
        intro key hkey
        simp only [Value.field?, Option.map_eq_none_iff] at hkey
        simp [withPlace, Value.field?, List.find?_append, hkey]
      rw [placeOf?, hat "file" hfile, hat "line" hline]
      rfl

section Spaces

variable (path : String) (docstring : Value) (place? : Option (Value × Value))

theorem spaceOf_spaceEntry : spaceOf .namespaces (spaceEntry path docstring place?) = path := by
  rw [spaceOf, spaceKey, spaceEntry, field?_withPlace (by decide) (by decide)]
  rfl

theorem docstringOf?_spaceEntry :
    docstringOf? (spaceEntry path docstring place?) = some docstring := by
  rw [docstringOf?, spaceEntry, field?_withPlace (by decide) (by decide)]
  rfl

theorem placeOf?_spaceEntry : placeOf? (spaceEntry path docstring place?) = place? := by
  rw [spaceEntry, placeOf?_withPlace] <;> rfl

/-- All entries of a namespace give its documentation. -/
theorem getLast?_docstrings (places : List (Value × Value)) :
    (((placesOrNone places).map (spaceEntry path docstring)).filterMap docstringOf?).getLast? =
      some docstring := by
  have hall : ((placesOrNone places).map (spaceEntry path docstring)).filterMap docstringOf? =
      (placesOrNone places).map fun _ => docstring := by
    rw [List.filterMap_map, ← List.filterMap_eq_map]
    exact congrArg (List.filterMap · _) (funext fun _ => docstringOf?_spaceEntry _ _ _)
  rw [hall, List.getLast?_map, List.getLast?_eq_some_getLast (placesOrNone_ne_nil places)]
  rfl

/-- The entries of a namespace give its places, one after the other. -/
theorem filterMap_placeOf? (places : List (Value × Value)) :
    ((placesOrNone places).map (spaceEntry path docstring)).filterMap placeOf? = places := by
  rw [List.filterMap_map]
  refine Eq.trans ?_ (filterMap_placesOrNone places)
  exact congrArg (List.filterMap · _) (funext fun _ => placeOf?_spaceEntry _ _ _)

variable {docstring place?}

/-- **An entry of a namespace can be read.** -/
theorem legible_spaceEntry (hdocstring : ∃ s, docstring = .text s)
    (hplace : ∀ place, place? = some place → IsPlace place) :
    Legible .namespaces (spaceEntry path docstring place?) := by
  refine ⟨⟨path, ?_⟩, annotated_iff.2 ⟨fun v hv => ?_, ?_⟩⟩
  · rw [text, spaceEntry, field?_withPlace (by decide) (by decide)]
    rfl
  · rw [docstringOf?_spaceEntry] at hv
    rwa [← Option.some.inj hv]
  · rwa [placeOf?_spaceEntry]

end Spaces

section Methods

variable (space name : String) (m : MethodRecord) (docstring : Value)
  (place? : Option (Value × Value))

theorem spaceOf_methodEntry : spaceOf .methods (methodEntry space name m docstring place?) = space := by
  rw [spaceOf, spaceKey, methodEntry, field?_withPlace (by decide) (by decide)]
  · rfl
  · simp

theorem nameOf_methodEntry : nameOf (methodEntry space name m docstring place?) = name := by
  rw [nameOf, methodEntry, field?_withPlace (by decide) (by decide)]
  rfl

theorem scopeOf?_methodEntry :
    scopeOf? (methodEntry space name m docstring place?) = some m.scope := by
  rw [scopeOf?, scopeField, methodEntry, field?_withPlace (by decide) (by decide)]
  exact Scope.ofText?_word m.scope

theorem visibility_methodEntry :
    Value.field? (methodEntry space name m docstring place?) "visibility" =
      some (.text m.visibility.word) := by
  rw [methodEntry, field?_withPlace (by decide) (by decide)]
  rfl

theorem parameters_methodEntry :
    Value.field? (methodEntry space name m docstring place?) "parameters" =
      some (.list (m.parameters.map fun p => .list [p.name, p.default])) := by
  rw [methodEntry, field?_withPlace (by decide) (by decide)]
  rfl

theorem explicit_methodEntry :
    Value.field? (methodEntry space name m docstring place?) "explicit" = some (.bool m.explicit) := by
  rw [methodEntry, field?_withPlace (by decide) (by decide)]
  rfl

theorem docstringOf?_methodEntry :
    docstringOf? (methodEntry space name m docstring place?) = some docstring := by
  rw [docstringOf?, methodEntry, field?_withPlace (by decide) (by decide)]
  rfl

theorem placeOf?_methodEntry : placeOf? (methodEntry space name m docstring place?) = place? := by
  rw [methodEntry, placeOf?_withPlace] <;> rfl

/-- Parameters are read as they are exported. -/
theorem mapM_ofItem? (ps : List Parameter) :
    (ps.map fun p => Value.list [p.name, p.default]).mapM Parameter.ofItem? = some ps := by
  induction ps with
  | nil => rfl
  | cons p ps ih =>
      rw [List.map_cons, List.mapM_cons, ih]
      rfl

theorem methodFieldsOf?_methodEntry (r : Registry) :
    methodFieldsOf? r (methodEntry space name m docstring place?) = some m.said := by
  have hvisibility : visibilityOf? r (methodEntry space name m docstring place?) =
      some m.visibility := by
    rw [visibilityOf?, visibility_methodEntry]
    exact Visibility.ofText?_word m.visibility
  have hparameters : parametersOf? (methodEntry space name m docstring place?) =
      some m.parameters := by
    rw [parametersOf?, parameters_methodEntry]
    exact mapM_ofItem? m.parameters
  rw [methodFieldsOf?, scopeOf?_methodEntry, hvisibility, hparameters, explicit_methodEntry]
  rfl

/-- **The entry of a method says what is exported of it.** -/
theorem methodProfile?_methodEntry (r : Registry) :
    methodProfile? r (methodEntry space name m docstring place?) = some
      { kind := .method, docstring, files := place?.toList, method? := some m.said } := by
  rw [methodProfile?, methodFieldsOf?_methodEntry, docstringOf?_methodEntry, placeOf?_methodEntry]
  rfl

variable {m docstring place?}

/-- **The entry of a method can be read**, if its parameters are found right. -/
theorem legible_methodEntry (hdocstring : ∃ s, docstring = .text s)
    (hparameters : ∀ p ∈ m.parameters, isParameter (.list [p.name, p.default]) = true)
    (hplace : ∀ place, place? = some place → IsPlace place) :
    Legible .methods (methodEntry space name m docstring place?) := by
  refine ⟨⟨space, ?_⟩, ⟨name, ?_⟩, ?_, ?_, ?_, annotated_iff.2 ⟨fun v hv => ?_, ?_⟩⟩
  · rw [textOr, methodEntry, field?_withPlace (by decide) (by decide)]
    rfl
  · rw [text, methodEntry, field?_withPlace (by decide) (by decide)]
    rfl
  · rw [scopeOf?_methodEntry]
    rfl
  · intro v hv
    rw [visibility_methodEntry] at hv
    rw [← Option.some.inj hv]
    exact Option.isSome_iff_exists.2 ⟨_, Visibility.ofText?_word m.visibility⟩
  · refine ⟨m.parameters.map fun p => .list [p.name, p.default], ?_⟩
    have hnone : (m.parameters.map fun p => Value.list [p.name, p.default]).find?
        (fun item => !isParameter item) = none := by
      simpa using hparameters
    rw [parameters, parameters_methodEntry]
    simp only [Option.getD_some, hnone]
  · rw [docstringOf?_methodEntry] at hv
    rwa [← Option.some.inj hv]
  · rwa [placeOf?_methodEntry]

end Methods

end Manifest

end DocCatalog
