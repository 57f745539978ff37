/-
**Manifests by their sections.**

A section that is accepted is a list of mappings, the fields of its entries, or is not there; so a
manifest can be taken apart into the entries of its sections and put together from them.

Main definitions:

* `Manifest.ofSections`: the manifest of some entries for each section.

Main results:

* `Manifest.entriesOf_eq_ok_iff`: the entries of a section are what the section lists;
* `Manifest.shaped_ofSections`, `Manifest.entriesIn_ofSections`: **a manifest that is put together has
  its shape and its entries**.
-/

import DocCatalog.Proofs.Manifest.Acceptance

set_option autoImplicit false

namespace DocCatalog.Manifest

variable {fields : Fields} {entries : List Fields} {part : Part} {data : Value}

/-- Entries are read off a list that consists of them. -/
theorem mapM_entryOf?_eq_some {items : List Value} :
    ∀ {entries}, items.mapM entryOf? = some entries ↔ items = entries.map .dict := by
  induction items with
  | nil => simp [eq_comm]
  | cons item items ih =>
      intro entries
      rw [List.mapM_cons]
      constructor
      · intro h
        obtain ⟨entry, hentry, hrest⟩ := Option.bind_eq_some_iff.1 h
        obtain ⟨rest, hitems, hlist⟩ := Option.bind_eq_some_iff.1 hrest
        have hitem : item = .dict entry := by
          cases item with
          | dict fields => rw [Option.some.inj hentry]
          | _ => cases hentry
        rw [← Option.some.inj hlist, hitem, ih.1 hitems]
        rfl
      · intro h
        cases entries with
        | nil => cases h
        | cons entry entries =>
            obtain ⟨rfl, hrest⟩ := List.cons.inj h
            rw [ih.2 hrest]
            rfl

/-- What is accepted as sections are the fields of the manifest. -/
theorem eq_of_sections {fields fields' : Fields} (h : sections (.dict fields) = .ok fields') :
    fields' = fields := by
  unfold sections at h
  simp only at h
  split at h
  · exact (Except.ok.inj h).symm
  · cases h

/-- The entries of a section are what the section lists; a section that is not there has none. -/
theorem entriesOf_eq_ok_iff : entriesOf fields part = .ok entries ↔
    (Value.field? fields part.key = none ∧ entries = []) ∨
      Value.field? fields part.key = some (.list (entries.map .dict)) := by
  unfold entriesOf
  cases hv : Value.field? fields part.key with
  | none => simp [eq_comm]
  | some v =>
      cases v with
      | list items =>
          simp only [reduceCtorEq, false_and, false_or, Option.some.injEq, Value.list.injEq]
          rw [← mapM_entryOf?_eq_some]
          cases items.mapM entryOf? <;> simp [refuse]
      | _ => simp [refuse]

theorem entriesIn_of_ok (hsections : sections data = .ok fields)
    (hread : entriesOf fields part = .ok entries) : entriesIn data part = entries := by
  simp [entriesIn, hsections, hread]

/-- Two sections never have one key. -/
theorem part_of_key {part part' : Part} (h : part.key = part'.key) : part = part' := by
  cases part <;> cases part' <;> first | rfl | exact absurd h (by decide)

/-- The sections of some parts, each listing its entries. -/
def sectionFields (parts : List Part) (entries : Part → List Fields) : Fields :=
  parts.map fun part => (part.key, .list ((entries part).map .dict))

/-- The manifest of some sections, each listing its entries. -/
def ofSections (parts : List Part) (entries : Part → List Fields) : Value :=
  .dict (sectionFields parts entries)

variable {parts : List Part} {said : Part → List Fields}

theorem field?_sectionFields : Value.field? (sectionFields parts said) part.key =
    if part ∈ parts then some (.list ((said part).map .dict)) else none := by
  induction parts with
  | nil => rfl
  | cons other rest ih =>
      by_cases h : other = part
      · subst h
        simp [sectionFields, Value.field?]
      · have hkey : other.key ≠ part.key := fun hkey => h (part_of_key hkey)
        have hne : part ≠ other := fun he => h he.symm
        simpa [sectionFields, Value.field?, List.find?_cons, hkey, hne] using ih

theorem sections_ofSections : sections (ofSections parts said) = .ok (sectionFields parts said) := by
  rw [ofSections, sections, if_pos]
  simp [sectionFields, List.filter_map, Function.comp_def]

theorem entriesOf_ofSections (part : Part) : entriesOf (sectionFields parts said) part =
    .ok (if part ∈ parts then said part else []) := by
  rw [entriesOf_eq_ok_iff, field?_sectionFields]
  by_cases h : part ∈ parts <;> simp [h]

/-- A manifest that is put together has the shape of one. -/
theorem shaped_ofSections : Shaped (ofSections parts said) :=
  ⟨_, sections_ofSections, fun part => ⟨_, entriesOf_ofSections part⟩⟩

/-- **A manifest that is put together has the entries it is put together from.** -/
theorem entriesIn_ofSections (part : Part) : entriesIn (ofSections parts said) part =
    if part ∈ parts then said part else [] :=
  entriesIn_of_ok sections_ofSections (entriesOf_ofSections part)

end DocCatalog.Manifest
