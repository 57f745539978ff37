/-
**Manifests in other separators.**

A manifest mentions paths in few places: the namespace that an entry is about or in, and the methods
that attributes and aliases refer to.  Respelled, it has the paths of these places in the separators
of another registry, and all else as it was.  Where the names are plain for both registries, the
entries are about the same identities as before: they can be read, they say the same, and they refer
to the same methods.

Main definitions:

* `Manifest.respellEntry`, `Manifest.respell`: an entry and a manifest in other separators;
* `Manifest.Respellable`: an entry whose names are plain for both registries;
* `Manifest.Respelled`: a manifest of such entries and its respelling.

Main results:

* `Manifest.entriesIn_respell`: the entries of a respelled manifest are those of the manifest,
  respelled;
* `Manifest.legible_respellEntry`, `Manifest.methodFieldsOf?_respellEntry`: a respelled entry can be
  read and says the same;
* `Manifest.Respellable.methodPath?_iff`: it is about the same method;
* `Manifest.Respelled.found_eq`: **a respelled manifest means the same under the other spelling**;
* `Manifest.respell_succeeds`: **a manifest that is accepted is accepted respelled**.
-/

import DocCatalog.Proofs.Manifest.Bindings
import DocCatalog.Proofs.Manifest.Sections
import DocCatalog.Proofs.Path.Respelling

set_option autoImplicit false

namespace DocCatalog.Manifest

open Catalog
open Separators (Spelled Spells)

variable {r r' : Registry} {fields entry : Fields} {part : Part} {data : Value} {key : String}

/-! ### Respelled manifests -/

/-- The keys of the fields that name methods in a section. -/
def referenceKeys : Part → List String
  | .attributes => ["read", "write"]
  | .aliases => ["method"]
  | _ => []

/-- The text of a field in other separators, if it is a path. -/
def respellText (r r' : Registry) (part : Part) (key text : String) : String :=
  if key = spaceKey part then respellSpace r r' text
  else if key ∈ referenceKeys part then respellMethod r r' text
  else text

/-- A field in other separators, if it is a path. -/
def respellField (r r' : Registry) (part : Part) (key : String) : Value → Value
  | .text s => .text (respellText r r' part key s)
  | v => v

/-- Fields that are changed each by its key. -/
def mapFields (f : String → Value → Value) (fields : Fields) : Fields :=
  fields.map fun field => (field.1, f field.1 field.2)

/-- An entry in other separators. -/
def respellEntry (r r' : Registry) (part : Part) (entry : Fields) : Fields :=
  mapFields (respellField r r' part) entry

/-- An item of a section in other separators. -/
def respellItem (r r' : Registry) (part : Part) : Value → Value
  | .dict entry => .dict (respellEntry r r' part entry)
  | v => v

/-- A section in other separators. -/
def respellItems (r r' : Registry) (part : Part) : Value → Value
  | .list items => .list (items.map (respellItem r r' part))
  | v => v

/-- What stands at a key of a manifest in other separators. -/
def respellSection (r r' : Registry) (key : String) (v : Value) : Value :=
  match Part.all.find? fun part => part.key = key with
  | some part => respellItems r r' part v
  | none => v

/-- A manifest in other separators: the paths of the separators of one registry are written in those
of another. -/
def respell (r r' : Registry) : Value → Value
  | .dict fields => .dict (mapFields (respellSection r r') fields)
  | v => v

/-! ### Sections and entries -/

theorem field?_mapFields (f : String → Value → Value) (fields : Fields) (key : String) :
    Value.field? (mapFields f fields) key = (Value.field? fields key).map (f key) := by
  induction fields with
  | nil => rfl
  | cons field fields ih =>
      by_cases hkey : field.1 = key
      · simp [mapFields, Value.field?, hkey]
      · simpa [mapFields, Value.field?, List.find?_cons, hkey] using ih

theorem sections_respell (r r' : Registry) (h : sections (.dict fields) = .ok fields) :
    sections (respell r r' (.dict fields)) = .ok (mapFields (respellSection r r') fields) := by
  have hkeys : (mapFields (respellSection r r') fields).map Prod.fst = fields.map Prod.fst := by
    simp [mapFields, Function.comp_def]
  simp only [sections, respell, hkeys] at h ⊢
  split at h
  · next hnone => rw [if_pos hnone]
  · cases h

theorem respellSection_key (part : Part) (v : Value) :
    respellSection r r' part.key v = respellItems r r' part v := by
  cases part <;> rfl

theorem entriesOf_respell {entries : List Fields} (h : entriesOf fields part = .ok entries) :
    entriesOf (mapFields (respellSection r r') fields) part =
      .ok (entries.map (respellEntry r r' part)) := by
  rw [entriesOf_eq_ok_iff, field?_mapFields] at *
  rcases h with ⟨hnone, rfl⟩ | hsome
  · exact .inl ⟨by rw [hnone]; rfl, rfl⟩
  · refine .inr ?_
    rw [hsome, Option.map_some, respellSection_key, respellItems, List.map_map, List.map_map]
    rfl

/-- **The entries of a respelled manifest are those of the manifest, respelled.** -/
theorem entriesIn_respell (r r' : Registry) (h : Shaped data) : Shaped (respell r r' data) ∧
    ∀ part, entriesIn (respell r r' data) part =
      (entriesIn data part).map (respellEntry r r' part) := by
  obtain ⟨fields, hsections, hread⟩ := h
  cases data with
  | dict listed =>
      obtain rfl : fields = listed := eq_of_sections hsections
      have hsections' := sections_respell r r' hsections
      have hread' : ∀ part, ∃ entries, entriesOf fields part = .ok entries ∧
          entriesOf (mapFields (respellSection r r') fields) part =
            .ok (entries.map (respellEntry r r' part)) := fun part => by
        obtain ⟨entries, hentries⟩ := hread part
        exact ⟨entries, hentries, entriesOf_respell hentries⟩
      refine ⟨⟨_, hsections', fun part => ⟨_, (hread' part).choose_spec.2⟩⟩, fun part => ?_⟩
      obtain ⟨entries, hentries, hentries'⟩ := hread' part
      rw [entriesIn_of_ok hsections hentries, entriesIn_of_ok hsections' hentries']
  | _ => cases hsections

/-! ### Fields of a respelled entry -/

theorem field?_respellEntry (r r' : Registry) (part : Part) (entry : Fields) (key : String) :
    Value.field? (respellEntry r r' part entry) key =
      (Value.field? entry key).map (respellField r r' part key) := field?_mapFields _ _ _

theorem textAt?_respellEntry (r r' : Registry) (part : Part) (entry : Fields) (key : String) :
    textAt? (respellEntry r r' part entry) key =
      (textAt? entry key).map (respellText r r' part key) := by
  rw [textAt?, textAt?, field?_respellEntry]
  cases Value.field? entry key with
  | none => rfl
  | some v => cases v <;> rfl

/-- A field that holds no path stays as it is. -/
theorem field?_respellEntry_of_ne (hspace : key ≠ spaceKey part) (href : key ∉ referenceKeys part) :
    Value.field? (respellEntry r r' part entry) key = Value.field? entry key := by
  have hfield : ∀ v, respellField r r' part key v = v := by
    intro v
    cases v <;> simp [respellField, respellText, hspace, href]
  rw [field?_respellEntry]
  cases Value.field? entry key with
  | none => rfl
  | some v => rw [Option.map_some, hfield]

/-- The fields that hold no path in any section. -/
theorem field?_respellEntry_said (r r' : Registry) (part : Part) (entry : Fields)
    (hkey : key ∈ ["name", "scope", "docstring", "file", "line", "visibility", "parameters",
      "explicit", "aliases"]) :
    Value.field? (respellEntry r r' part entry) key = Value.field? entry key := by
  have hpaths : ∀ part : Part, ∀ key ∈ ["name", "scope", "docstring", "file", "line", "visibility",
      "parameters", "explicit", "aliases"], key ≠ spaceKey part ∧ key ∉ referenceKeys part := by
    intro part
    cases part <;> decide
  exact field?_respellEntry_of_ne (hpaths part key hkey).1 (hpaths part key hkey).2

theorem spaceOf_respellEntry (r r' : Registry) (part : Part) (entry : Fields) :
    spaceOf part (respellEntry r r' part entry) = respellSpace r r' (spaceOf part entry) := by
  have hspace : ∀ entry : Fields, spaceOf part entry = (textAt? entry (spaceKey part)).getD "" :=
    fun _ => rfl
  rw [hspace, hspace, textAt?_respellEntry]
  cases textAt? entry (spaceKey part) with
  | none => rfl
  | some p => simp [respellText]

theorem nameOf_respellEntry (r r' : Registry) (part : Part) (entry : Fields) :
    nameOf (respellEntry r r' part entry) = nameOf entry := by
  rw [nameOf, nameOf, field?_respellEntry_said r r' part entry (by simp)]

theorem scopeOf?_respellEntry (r r' : Registry) (part : Part) (entry : Fields) :
    scopeOf? (respellEntry r r' part entry) = scopeOf? entry := by
  rw [scopeOf?, scopeOf?, scopeField, scopeField,
    field?_respellEntry_said r r' part entry (by simp)]

theorem docstringOf?_respellEntry (r r' : Registry) (part : Part) (entry : Fields) :
    docstringOf? (respellEntry r r' part entry) = docstringOf? entry :=
  field?_respellEntry_said r r' part entry (by simp)

theorem placeOf?_respellEntry (r r' : Registry) (part : Part) (entry : Fields) :
    placeOf? (respellEntry r r' part entry) = placeOf? entry := by
  rw [placeOf?, placeOf?, field?_respellEntry_said r r' part entry (by simp),
    field?_respellEntry_said r r' part entry (by simp)]

theorem aliasName_respellEntry (r r' : Registry) (part : Part) (entry : Fields) :
    aliasName (respellEntry r r' part entry) = aliasName entry := by
  rw [aliasName, aliasName, textAt?, textAt?, field?_respellEntry_said r r' part entry (by simp)]

theorem parameters_respellEntry (r r' : Registry) (part : Part) (entry : Fields) :
    parameters (respellEntry r r' part entry) = parameters entry := by
  rw [parameters, parameters, field?_respellEntry_said r r' part entry (by simp)]

/-- **A respelled entry says the same about a method.** -/
theorem methodFieldsOf?_respellEntry (hvisibility : r'.config.visibility = r.config.visibility)
    (part : Part) (entry : Fields) :
    methodFieldsOf? r' (respellEntry r r' part entry) = methodFieldsOf? r entry := by
  have hfield : ∀ {key}, _ → _ := fun {key} => @field?_respellEntry_said key r r' part entry
  rw [methodFieldsOf?, methodFieldsOf?, scopeOf?_respellEntry, visibilityOf?, visibilityOf?,
    parametersOf?, parametersOf?, hfield (by simp), hfield (by simp), hfield (by simp),
    hvisibility]

theorem methodProfile?_respellEntry (hvisibility : r'.config.visibility = r.config.visibility)
    (part : Part) (entry : Fields) :
    methodProfile? r' (respellEntry r r' part entry) = methodProfile? r entry := by
  rw [methodProfile?, methodProfile?, methodFieldsOf?_respellEntry hvisibility,
    docstringOf?_respellEntry, placeOf?_respellEntry]

/-! ### Reading a respelled entry -/

section Reading

variable {part' : Part}

theorem reads_text_respellEntry (h : Reads (text entry key part')) :
    Reads (text (respellEntry r r' part entry) key part') := by
  obtain ⟨s, hs⟩ := h
  have hfield : Value.field? (respellEntry r r' part entry) key =
      some (.text (respellText r r' part key s)) := by
    rw [field?_respellEntry, text_eq_ok hs]
    rfl
  exact ⟨respellText r r' part key s, by rw [text, hfield]; rfl⟩

theorem reads_textOr_respellEntry (h : Reads (textOr "" entry key part')) :
    Reads (textOr "" (respellEntry r r' part entry) key part') := by
  obtain ⟨s, hs⟩ := h
  unfold Reads textOr at *
  rw [field?_respellEntry]
  cases hv : Value.field? entry key with
  | none => exact ⟨"", rfl⟩
  | some v =>
      simp only [hv] at hs
      rw [textOf_eq_ok hs]
      exact ⟨_, rfl⟩

theorem reads_textOrNull_respellEntry (h : Reads (textOrNull entry key part')) :
    Reads (textOrNull (respellEntry r r' part entry) key part') := by
  obtain ⟨s?, hs⟩ := h
  unfold Reads textOrNull at *
  rw [field?_respellEntry]
  cases hv : Value.field? entry key with
  | none => exact ⟨none, rfl⟩
  | some v =>
      cases v with
      | null => exact ⟨none, rfl⟩
      | text s => exact ⟨_, rfl⟩
      | _ => simp only [hv] at hs; cases hs

theorem annotated_respellEntry (h : Annotated part' entry) :
    Annotated part' (respellEntry r r' part entry) := by
  have hfield : ∀ {key}, _ → _ := fun {key} => @field?_respellEntry_said key r r' part entry
  constructor
  · rw [hfield (by simp)]
    exact fun hsome => reads_text_respellEntry (h.docstring hsome)
  · have hplace := h.place
    unfold place? at *
    rwa [hfield (by simp), hfield (by simp)]

/-- **A respelled entry can be read.** -/
theorem legible_respellEntry (h : Legible part entry) :
    Legible part (respellEntry r r' part entry) := by
  cases part with
  | namespaces => exact ⟨reads_text_respellEntry h.1, annotated_respellEntry h.2⟩
  | methods =>
      obtain ⟨hspace, hname, hscope, hdescribed⟩ := h
      refine ⟨reads_textOr_respellEntry hspace, reads_text_respellEntry hname,
        by rwa [scopeOf?_respellEntry], ?_,
        by rw [parameters_respellEntry]; exact hdescribed.parameters,
        annotated_respellEntry hdescribed.annotated⟩
      rw [field?_respellEntry_said r r' _ entry (by simp)]
      exact hdescribed.visibility
  | attributes =>
      obtain ⟨hspace, hname, hread, hwrite, hscope⟩ := h
      exact ⟨reads_textOr_respellEntry hspace, reads_text_respellEntry hname,
        reads_textOrNull_respellEntry hread, reads_textOrNull_respellEntry hwrite,
        by rwa [scopeOf?_respellEntry]⟩
  | aliases =>
      exact ⟨reads_textOr_respellEntry h.1, reads_text_respellEntry h.2.1,
        reads_text_respellEntry h.2.2⟩

end Reading

/-! ### References -/

theorem references_eq (part : Part) (entry : Fields) :
    references part entry = (referenceKeys part).filterMap (textAt? entry) := by
  cases part with
  | aliases => cases h : textAt? entry "method" <;> simp [references, referenceKeys, h]
  | _ => rfl

theorem respellText_reference (hkey : key ∈ referenceKeys part) (p : String) :
    respellText r r' part key p = respellMethod r r' p := by
  have hspace : ∀ part : Part, ∀ key ∈ referenceKeys part, key ≠ spaceKey part := by
    intro part
    cases part <;> decide
  rw [respellText, if_neg (hspace part key hkey), if_pos hkey]

/-- A respelled entry refers to what the entry refers to, in other separators. -/
theorem references_respellEntry (r r' : Registry) (part : Part) (entry : Fields) :
    references part (respellEntry r r' part entry) =
      (references part entry).map (respellMethod r r') := by
  rw [references_eq, references_eq, List.map_filterMap]
  refine List.filterMap_congr fun key hkey => ?_
  rw [textAt?_respellEntry]
  exact Option.map_congr fun p _ => respellText_reference hkey p

/-! ### Respellable entries -/

/-- An entry whose names, as the separators of one registry tell them, are plain for these and for
those of another. -/
structure Respellable (r r' : Registry) (part : Part) (entry : Fields) : Prop where
  space : ∀ name ∈ spaceNames r (spaceOf part entry),
    r.separators.Plain name ∧ r'.separators.Plain name
  name : part = .methods → r.separators.Plain (nameOf entry) ∧ r'.separators.Plain (nameOf entry)

instance (r r' : Registry) (part : Part) (entry : Fields) :
    Decidable (Respellable r r' part entry) :=
  decidable_of_iff ((∀ name ∈ spaceNames r (spaceOf part entry),
      r.separators.Plain name ∧ r'.separators.Plain name) ∧
    (part = .methods → r.separators.Plain (nameOf entry) ∧ r'.separators.Plain (nameOf entry)))
    ⟨fun h => ⟨h.1, h.2⟩, fun h => ⟨h.space, h.name⟩⟩

/-- The path of the method that an entry is about is that of an identity exactly when the entry is
about this identity. -/
theorem Clean.methodPath?_iff (h : Clean r .methods entry) {owners : List String} {name : String}
    {scope? : Option Scope} (ho : ∀ o ∈ owners, r.separators.Plain o)
    (hn : r.separators.Plain name) :
    methodPath? r entry = some (r.separators.render owners name scope?) ↔
      scope? ≠ none ∧ scopeOf? entry = scope? ∧ nameOf entry = name ∧
        spaceNames r (spaceOf .methods entry) = owners := by
  constructor
  · intro hp
    obtain ⟨scope, hscope, hpath⟩ := methodPath?_eq_some h hp
    obtain ⟨howners, hname, rfl⟩ := Separators.render_injective (s := r.separators)
      r.config.distinct ho h.space hn (h.name rfl) hpath
    exact ⟨by simp, hscope, hname.symm, howners.symm⟩
  · rintro ⟨hsome, hscope, rfl, rfl⟩
    obtain ⟨scope, rfl⟩ := Option.ne_none_iff_exists'.1 hsome
    rw [methodPath?, hscope, Separators.render, spacePath_spaceOf h]
    rfl

namespace Respellable

theorem clean (h : Respellable r r' part entry) : Clean r part entry :=
  ⟨fun name hname => (h.space name hname).1, fun hpart => (h.name hpart).1⟩

/-- A respelled entry has the names of the entry. -/
theorem spaceNames_respellEntry (h : Respellable r r' part entry) :
    spaceNames r' (spaceOf part (respellEntry r r' part entry)) =
      spaceNames r (spaceOf part entry) := by
  rw [spaceOf_respellEntry, respellSpace, spaceNames_spacePath fun name hname =>
    (h.space name hname).2]

theorem respelled (h : Respellable r r' part entry) :
    Respellable r' r part (respellEntry r r' part entry) where
  space := by
    rw [h.spaceNames_respellEntry]
    exact fun name hname => (h.space name hname).symm
  name hpart := by
    rw [nameOf_respellEntry]
    exact (h.name hpart).symm

variable {owners : List String} {name : String} {scope? : Option Scope} {p p' : String}

/-- A respelled entry is about the same method. -/
theorem methodPath?_iff (h : Respellable r r' .methods entry)
    (hp : Spelled r.separators r'.separators owners name scope? p p') :
    methodPath? r' (respellEntry r r' .methods entry) = some p' ↔ methodPath? r entry = some p := by
  rw [hp.left, hp.right, h.clean.methodPath?_iff (fun o ho => (hp.owners_plain o ho).1)
    hp.name_plain.1, h.respelled.clean.methodPath?_iff (fun o ho => (hp.owners_plain o ho).2)
    hp.name_plain.2, scopeOf?_respellEntry, nameOf_respellEntry, h.spaceNames_respellEntry]

/-- The path of the method that an entry is about is settled by the identity. -/
theorem spelled_of_methodPath? (h : Respellable r r' .methods entry)
    (hp : methodPath? r entry = some p) : ∃ owners name scope,
      Spelled r.separators r'.separators owners name (some scope) p
        (respellMethod r r' p) := by
  obtain ⟨scope, -, rfl⟩ := methodPath?_eq_some h.clean hp
  refine ⟨_, _, scope, h.space, h.name rfl, rfl, ?_⟩
  exact respellMethod_render (fun o ho => (h.space o ho).1) (h.name rfl).1

end Respellable

/-! ### What a respelled manifest means -/

section Meaning

variable {data' : Value} {l : List Fields} {owners names : List String} {name : String}
  {scope? : Option Scope} {p p' : String}

/-- A manifest has the entries of another in other separators, and the names of these are plain for
both registries. -/
structure Respelled (r r' : Registry) (data data' : Value) : Prop where
  entries : ∀ part, entriesIn data' part = (entriesIn data part).map (respellEntry r r' part)
  names : ∀ part, ∀ entry ∈ entriesIn data part, Respellable r r' part entry

theorem Respelled.names' (h : Respelled r r' data data') :
    ∀ part, ∀ entry ∈ entriesIn data' part, Respellable r' r part entry := by
  intro part entry' he'
  rw [h.entries] at he'
  obtain ⟨entry, he, rfl⟩ := List.mem_map.1 he'
  exact (h.names part entry he).respelled

theorem Respelled.clean (h : Respelled r r' data data') :
    ∀ part, ∀ entry ∈ entriesIn data part, Clean r part entry :=
  fun part entry he => (h.names part entry he).clean

theorem Respelled.clean' (h : Respelled r r' data data') :
    ∀ part, ∀ entry ∈ entriesIn data' part, Clean r' part entry :=
  fun part entry he => (h.names' part entry he).clean

/-- An entry is about a namespace exactly when the names along its path are those of the
namespace. -/
theorem Clean.spaceOf_eq_iff (h : Clean r part entry) (hnames : ∀ n ∈ names, r.separators.Plain n) :
    spaceOf part entry = r.separators.spacePath names ↔
      spaceNames r (spaceOf part entry) = names :=
  ⟨fun he => by rw [he, spaceNames_spacePath hnames], fun he => by rw [← he, spacePath_spaceOf h]⟩

/-- The entries about a namespace are about it when they are respelled. -/
theorem about_respelled (h : ∀ entry ∈ l, Respellable r r' part entry)
    (hnames : ∀ n ∈ names, r.separators.Plain n ∧ r'.separators.Plain n) :
    about part (r'.separators.spacePath names) (l.map (respellEntry r r' part)) =
      (about part (r.separators.spacePath names) l).map (respellEntry r r' part) := by
  rw [about, about, List.filter_map]
  refine congrArg _ (List.filter_congr fun entry he => ?_)
  have hentry := h entry he
  rw [Function.comp_apply, decide_eq_decide,
    hentry.respelled.clean.spaceOf_eq_iff fun n hn => (hnames n hn).2,
    hentry.clean.spaceOf_eq_iff fun n hn => (hnames n hn).1, hentry.spaceNames_respellEntry]

/-- The same is said of a namespace under either spelling. -/
theorem spaceProfile_respelled (h : ∀ entry ∈ l, Respellable r r' .namespaces entry)
    (hnames : ∀ n ∈ names, r.separators.Plain n ∧ r'.separators.Plain n) :
    spaceProfile (l.map (respellEntry r r' .namespaces)) (r'.separators.spacePath names) =
      spaceProfile l (r.separators.spacePath names) := by
  have hat : entriesAt (l.map (respellEntry r r' .namespaces)) (r'.separators.spacePath names) =
      (entriesAt l (r.separators.spacePath names)).map (respellEntry r r' .namespaces) :=
    about_respelled h hnames
  have hdocstring : docstringOf? ∘ respellEntry r r' .namespaces = docstringOf? :=
    funext (docstringOf?_respellEntry r r' .namespaces)
  have hplace : placeOf? ∘ respellEntry r r' .namespaces = placeOf? :=
    funext (placeOf?_respellEntry r r' .namespaces)
  simp only [spaceProfile, spaceDocstring, spaceFiles, hat, List.filterMap_map, hdocstring, hplace]

/-- The last entry about a method is the last when all are respelled. -/
theorem lastAt_respelled (h : ∀ entry ∈ l, Respellable r r' .methods entry)
    (hp : Spelled r.separators r'.separators owners name scope? p p') :
    lastAt r' (l.map (respellEntry r r' .methods)) p' =
      (lastAt r l p).map (respellEntry r r' .methods) := by
  rw [lastAt, lastAt, List.filter_map, List.getLast?_map]
  refine congrArg (fun l => Option.map _ (List.getLast? l)) (List.filter_congr fun entry he => ?_)
  rw [Function.comp_apply, decide_eq_decide, (h entry he).methodPath?_iff hp]

/-- A namespace is at the path of an identity exactly when the identity is no method's and some
entry mentions its names. -/
theorem isSpacePath_render_iff (hclean : ∀ part, ∀ entry ∈ entriesIn data part, Clean r part entry)
    (ho : ∀ o ∈ owners, r.separators.Plain o) (hn : r.separators.Plain name) :
    IsSpacePath r data (r.separators.render owners name scope?) ↔ scope? = none ∧
      ∃ part, ∃ entry ∈ entriesIn data part,
        owners ++ [name] <+: spaceNames r (spaceOf part entry) := by
  constructor
  · rintro ⟨part, entry, he, names, hne, hpre, hp⟩
    rcases List.eq_nil_or_concat names with rfl | ⟨init, last, rfl⟩
    · exact absurd rfl hne
    · rw [List.concat_eq_append] at hp hpre
      have hplain : ∀ n ∈ init ++ [last], r.separators.Plain n := fun n hmem =>
        (hclean part entry he).space n (hpre.subset hmem)
      rw [← Separators.render_none] at hp
      obtain ⟨rfl, rfl, rfl⟩ := Separators.render_injective (s := r.separators) r.config.distinct ho
        (fun o hmem => hplain o (by simp [hmem])) hn (hplain last (by simp)) hp
      exact ⟨rfl, part, entry, he, hpre⟩
  · rintro ⟨rfl, part, entry, he, hpre⟩
    exact ⟨part, entry, he, _, by simp, hpre, Separators.render_none _ _ _⟩

namespace Respelled

variable (h : Respelled r r' data data')
include h

theorem isSpacePath_iff (hp : Spelled r.separators r'.separators owners name scope? p p') :
    IsSpacePath r' data' p' ↔ IsSpacePath r data p := by
  rw [hp.left, hp.right,
    isSpacePath_render_iff h.clean (fun o ho => (hp.owners_plain o ho).1) hp.name_plain.1,
    isSpacePath_render_iff h.clean' (fun o ho => (hp.owners_plain o ho).2) hp.name_plain.2]
  refine and_congr_right fun _ => exists_congr fun part => ?_
  rw [h.entries]
  constructor
  · rintro ⟨_, he', hpre⟩
    obtain ⟨entry, he, rfl⟩ := List.mem_map.1 he'
    exact ⟨entry, he, (h.names part entry he).spaceNames_respellEntry ▸ hpre⟩
  · rintro ⟨entry, he, hpre⟩
    exact ⟨_, List.mem_map_of_mem he, (h.names part entry he).spaceNames_respellEntry.symm ▸ hpre⟩

/-- **A respelled manifest means the same under the other spelling.** -/
theorem found_eq (hvisibility : r'.config.visibility = r.config.visibility)
    (hp : Spelled r.separators r'.separators owners name scope? p p') :
    found r' (rows data') p' = found r (rows data) p := by
  by_cases hspace : IsSpacePath r data p
  · rw [found_of_isSpacePath hspace, found_of_isSpacePath ((h.isSpacePath_iff hp).2 hspace),
      h.entries]
    rw [hp.left] at hspace
    obtain ⟨rfl, -⟩ := (isSpacePath_render_iff h.clean (fun o ho => (hp.owners_plain o ho).1)
      hp.name_plain.1).1 hspace
    rw [hp.left, hp.right, Separators.render_none, Separators.render_none,
      spaceProfile_respelled (h.names .namespaces) hp.names_plain]
  · rw [found_of_not_isSpacePath hspace,
      found_of_not_isSpacePath (mt (h.isSpacePath_iff hp).1 hspace), h.entries,
      lastAt_respelled (h.names .methods) hp, Option.bind_map]
    exact congrArg _ (funext fun entry => methodProfile?_respellEntry hvisibility .methods entry)

end Respelled

/-- What is found is found under a path that has another spelling. -/
theorem spells_of_found
    (hnames : ∀ part, ∀ entry ∈ entriesIn data part, Respellable r r' part entry)
    (haccepted : ∀ part, ∀ entry ∈ entriesIn data part, Accepted r part entry)
    (hfound : found r (rows data) p ≠ none) :
    ∃ p', Spells r.separators r'.separators p p' := by
  have hclean := fun part entry he => (hnames part entry he).clean
  rcases (found_ne_none_iff hclean haccepted).1 hfound with
    ⟨part, entry, he, names, hne, hpre, rfl⟩ | ⟨entry, he, hp⟩
  · have hplain := fun name hname => (hnames part entry he).space name (hpre.subset hname)
    rcases List.eq_nil_or_concat names with rfl | ⟨owners, name, rfl⟩
    · exact absurd rfl hne
    · rw [List.concat_eq_append] at hplain ⊢
      exact ⟨_, owners, name, none, fun o ho => hplain o (by simp [ho]), hplain name (by simp),
        (Separators.render_none _ _ _).symm, rfl⟩
  · obtain ⟨_, _, _, hspelled⟩ := (hnames .methods entry he).spelled_of_methodPath? hp
    exact ⟨_, hspelled.spells⟩

end Meaning

/-! ### Acceptance -/

/-- **A manifest that is accepted into a new registry is accepted respelled** into one with other
separators, if all names are plain for both. -/
theorem respell_succeeds {s s' : Session} (hs : s.Reachable) (hs' : s'.Reachable)
    {config config' : Config} (hnames : ∀ part, ∀ entry ∈ entriesIn data part,
      Respellable (s.catalog.openRegistry config).1 (s'.catalog.openRegistry config').1 part entry)
    (hok : (load (s.catalog.openRegistry config).1 data).Succeeds
      (s.catalog.openRegistry config).2) :
    (load (s'.catalog.openRegistry config').1 (respell (s.catalog.openRegistry config).1
      (s'.catalog.openRegistry config').1 data)).Succeeds (s'.catalog.openRegistry config').2 := by
  obtain ⟨hshaped, hlegible, hreferred⟩ :=
    (fresh_succeeds_iff hs fun part entry he => (hnames part entry he).clean).1 hok
  obtain ⟨hshaped', hentries⟩ := entriesIn_respell (s.catalog.openRegistry config).1
    (s'.catalog.openRegistry config').1 hshaped
  -- every entry of the respelled manifest comes from one of the manifest
  have hback : ∀ part, ∀ entry' ∈ entriesIn (respell (s.catalog.openRegistry config).1
      (s'.catalog.openRegistry config').1 data) part, ∃ entry ∈ entriesIn data part,
        respellEntry (s.catalog.openRegistry config).1 (s'.catalog.openRegistry config').1 part
          entry = entry' := fun part entry' he' => by
    rw [hentries] at he'
    exact List.mem_map.1 he'
  refine (fresh_succeeds_iff hs' fun part entry' he' => ?_).2
    ⟨hshaped', fun part entry' he' => ?_, fun part entry' he' p' hp' => ?_⟩
  · obtain ⟨entry, he, rfl⟩ := hback part entry' he'
    exact (hnames part entry he).respelled.clean
  · obtain ⟨entry, he, rfl⟩ := hback part entry' he'
    exact legible_respellEntry (hlegible part entry he)
  · obtain ⟨entry, he, rfl⟩ := hback part entry' he'
    rw [references_respellEntry] at hp'
    obtain ⟨p, hp, rfl⟩ := List.mem_map.1 hp'
    obtain ⟨described, hmem, hpath⟩ := hreferred part entry he p hp
    obtain ⟨_, _, _, hspelled⟩ := (hnames .methods described hmem).spelled_of_methodPath? hpath
    refine ⟨_, by rw [hentries]; exact List.mem_map_of_mem hmem, ?_⟩
    exact ((hnames .methods described hmem).methodPath?_iff hspelled).2 hpath

end DocCatalog.Manifest
