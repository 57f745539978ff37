/-
**What the entries of a manifest say.**

Reading an entry checks its fields one by one and may refuse it.  Here what an entry says is read
off its fields without any check; where reading accepts a field, it finds what the entry says.

Main definitions:

* `Manifest.spaceOf`, `Manifest.nameOf`, `Manifest.scopeOf?`: the place that an entry is about;
* `Manifest.docstringOf?`, `Manifest.placeOf?`: what an entry says about any entity;
* `Manifest.methodFieldsOf?`, `Manifest.methodProfile?`: what an entry says about a method;
* `Profile.annotate`: an entity with what an entry says about it;
* `Manifest.Accepted`, `Manifest.Clean`: an entry that is complete, and one with plain names only.

Main results:

* `Manifest.text_eq_ok`, `Manifest.place?_eq_ok` and their like: what is accepted is what is said.
-/

import DocCatalog.Proofs.Path.Segments
import DocCatalog.Proofs.Registry.View

set_option autoImplicit false

namespace DocCatalog

namespace Manifest

open Catalog

/-! ### What is said -/

/-- The key of the field that names a namespace in a section. -/
def spaceKey : Part → String
  | .namespaces => "path"
  | _ => "namespace"

/-- The path of the namespace that an entry is about or in; without one, the root's. -/
def spaceOf (part : Part) (entry : Fields) : String :=
  ((Value.field? entry (spaceKey part)).bind Value.text?).getD ""

/-- The name that an entry gives. -/
def nameOf (entry : Fields) : String := ((Value.field? entry "name").bind Value.text?).getD ""

/-- The scope that an entry gives, which may be spelled in several ways. -/
def scopeOf? (entry : Fields) : Option Scope := Scope.ofValue? (scopeField entry)

/-- The documentation that an entry gives. -/
def docstringOf? (entry : Fields) : Option Value := Value.field? entry "docstring"

/-- The place that an entry gives: a file and a line. -/
def placeOf? (entry : Fields) : Option (Value × Value) :=
  (Value.field? entry "file").map fun file => (file, (Value.field? entry "line").getD .null)

/-- The visibility that an entry gives; without one, that of the settings. -/
def visibilityOf? (r : Registry) (entry : Fields) : Option Visibility :=
  match Value.field? entry "visibility" with
  | some v => Visibility.ofValue? v
  | none => some r.config.visibility

/-- The parameters that an entry gives, in their order. -/
def parametersOf? (entry : Fields) : Option (List Parameter) :=
  match (Value.field? entry "parameters").getD (.list []) with
  | .list items => items.mapM Parameter.ofItem?
  | _ => none

/-- What an entry says about a method that nothing else can be. -/
def methodFieldsOf? (r : Registry) (entry : Fields) : Option MethodFields := do
  let scope ← scopeOf? entry
  let visibility ← visibilityOf? r entry
  let parameters ← parametersOf? entry
  return { scope, visibility, parameters
           explicit := (Value.field? entry "explicit").getD .null }

/-- A method that is as an entry says, and has nothing else. -/
def methodProfile? (r : Registry) (entry : Fields) : Option Profile :=
  (methodFieldsOf? r entry).map fun fields =>
    { kind := .method
      docstring := (docstringOf? entry).getD (.text "")
      files := (placeOf? entry).toList
      method? := some fields }

/-- The path of the method that an entry is about. -/
def methodPath? (r : Registry) (entry : Fields) : Option String :=
  (scopeOf? entry).map fun s =>
    r.separators.methodPath (nameOf entry) (spaceOf .methods entry) s

/-- A place as it is accepted: a file by name, and a line or none. -/
def IsPlace (place : Value × Value) : Prop := (∃ f, place.1 = .text f) ∧ isLine place.2 = true

/-- What an entry says is complete. -/
structure Accepted (r : Registry) (part : Part) (entry : Fields) : Prop where
  method : part = .methods →
    ∃ path f, methodPath? r entry = some path ∧ methodProfile? r entry = some f
  place : part = .namespaces → ∀ place, placeOf? entry = some place → IsPlace place

/-- An entry with plain names only. -/
structure Clean (r : Registry) (part : Part) (entry : Fields) : Prop where
  space : ∀ name ∈ spaceNames r (spaceOf part entry), r.separators.Plain name
  name : part = .methods → r.separators.Plain (nameOf entry)

instance (r : Registry) (part : Part) (entry : Fields) : Decidable (Clean r part entry) :=
  decidable_of_iff ((∀ name ∈ spaceNames r (spaceOf part entry), r.separators.Plain name) ∧
    (part = .methods → r.separators.Plain (nameOf entry)))
    ⟨fun h => ⟨h.1, h.2⟩, fun h => ⟨h.space, h.name⟩⟩

end Manifest

/-- Places with another, unless the same place is among them. -/
def addPlace (files : List (Value × Value)) (place : Value × Value) : List (Value × Value) :=
  if files.any fun p => p.1.agrees place.1 && p.2.agrees place.2 then files else files ++ [place]

/-- An entity with what an entry says about it: the documentation in place of its own, and the place
after its own. -/
def Profile.annotate (f : Profile) (entry : Manifest.Fields) : Profile :=
  { f with
    docstring := (Manifest.docstringOf? entry).getD f.docstring
    files := match Manifest.placeOf? entry with
      | some place => addPlace f.files place
      | none => f.files }

namespace Manifest

/-! ### What is accepted is what is said -/

variable {entry : Fields} {key : String} {part : Part} {s : String}

theorem textOf_eq_ok {v : Value} (h : textOf key part v = .ok s) : v = .text s := by
  cases v with
  | text t => exact congrArg Value.text (Except.ok.inj h)
  | _ => cases h

theorem text_eq_ok (h : text entry key part = .ok s) : Value.field? entry key = some (.text s) := by
  unfold text at h
  split at h
  · next hv => rw [hv, textOf_eq_ok h]
  · cases h

theorem textOr_eq_ok (h : textOr "" entry key part = .ok s) :
    ((Value.field? entry key).bind Value.text?).getD "" = s := by
  unfold textOr at h
  split at h
  · next hv => rw [hv, textOf_eq_ok h]; rfl
  · next hv => rw [hv]; exact Except.ok.inj h

theorem nameOf_of_text (h : text entry "name" part = .ok s) : nameOf entry = s := by
  simp [nameOf, text_eq_ok h, Value.text?]

theorem spaceOf_of_text (h : text entry "path" .namespaces = .ok s) :
    spaceOf .namespaces entry = s := by
  simp [spaceOf, spaceKey, text_eq_ok h, Value.text?]

theorem spaceOf_of_textOr (hp : part ≠ .namespaces) (h : textOr "" entry "namespace" part = .ok s) :
    spaceOf part entry = s := by
  have hkey : spaceKey part = "namespace" := by cases part <;> first | rfl | exact absurd rfl hp
  rw [spaceOf, hkey, textOr_eq_ok h]

theorem place?_eq_ok {p : Option (String × Value)} (h : place? entry part = .ok p) :
    placeOf? entry = p.map fun p => (.text p.1, p.2) := by
  unfold place? at h
  split at h
  · next hv => simp [placeOf?, hv, ← Except.ok.inj h]
  · next file hv =>
      simp only at h
      split at h
      · cases hf : textOf "file" part file with
        | error fault => rw [hf] at h; cases h
        | ok f =>
            rw [hf] at h
            simp [placeOf?, hv, textOf_eq_ok hf, ← Except.ok.inj h]
      · cases h

theorem isPlace_of_place? {p : Option (String × Value)} {place : Value × Value}
    (h : place? entry part = .ok p) (hplace : placeOf? entry = some place) : IsPlace place := by
  unfold place? at h
  unfold placeOf? at hplace
  cases hf : Value.field? entry "file" with
  | none => simp [hf] at hplace
  | some file =>
      simp only [hf, Option.map_some, Option.some.injEq] at h hplace
      subst hplace
      split at h
      · next hline =>
          cases ht : textOf "file" part file with
          | error fault => rw [ht] at h; cases h
          | ok f => exact ⟨⟨f, textOf_eq_ok ht⟩, hline⟩
      · cases h

theorem ofItems_cons (item : Value) (items : List Value) :
    Parameter.ofItems (item :: items) = match Parameter.ofItem? item with
      | some p => (Parameter.ofItems items).map (p :: ·)
      | none => .error (.badParameter item) := by
  simp only [Parameter.ofItems, List.mapM_cons]
  cases Parameter.ofItem? item <;> rfl

theorem ofItems_eq_ok {items : List Value} :
    ∀ {ps}, Parameter.ofItems items = .ok ps → items.mapM Parameter.ofItem? = some ps := by
  induction items with
  | nil =>
      intro ps h
      rw [← Except.ok.inj h]
      rfl
  | cons item items ih =>
      intro ps h
      rw [ofItems_cons] at h
      cases hi : Parameter.ofItem? item with
      | none => rw [hi] at h; cases h
      | some q =>
          rw [hi] at h
          cases hs : Parameter.ofItems items with
          | error fault => rw [hs] at h; cases h
          | ok qs =>
              rw [hs] at h
              rw [List.mapM_cons, hi, ih hs, ← Except.ok.inj h]
              rfl

theorem parameters_eq_ok {items : List Value} {ps : List Parameter}
    (h : parameters entry = .ok items) (hps : Parameter.ofItems items = .ok ps) :
    parametersOf? entry = some ps := by
  unfold parameters at h
  split at h
  · next items' hv =>
      split at h
      · cases h
      · rw [← Except.ok.inj h] at hps
        rw [parametersOf?, hv]
        exact ofItems_eq_ok hps
  · cases h

end Manifest

end DocCatalog
