/-
**An export can be loaded again.**

What is exported of a registry that was filled from namespaces and methods, written as a manifest, is
accepted into a new registry, and this is shown like the first.  The two halves of the argument meet
at the records of the export: the registry shows one record for each path, with what the entries of
its manifest say there, and the entries that restate the records say the same again.

Main definitions:

* `Manifest.Exported`: records show what a manifest means;
* `Manifest.Retells`: a record shows what an entry says about a method.

Main results:

* `Manifest.Loaded.exported`: what is exported shows what the manifest means;
* `Manifest.Exported.found_manifestOf`: **an export means what the manifest meant**, as far as it is
  shown;
* `Manifest.load_manifestOf`: **an export is accepted and shown like what it was exported of**.
-/

import Mathlib.Data.List.Forall2
import DocCatalog.Proofs.Export.Restating

set_option autoImplicit false

namespace DocCatalog

open Catalog

/-! ### What records show -/

/-- What a record shows, as a profile. -/
def EntityRecord.profile (x : EntityRecord) : Profile where
  kind := x.kind
  docstring := x.docstring
  files := x.files
  method? := x.method?.map MethodRecord.said

@[simp] theorem Profile.shown_shown (f : Profile) : f.shown.shown = f.shown := by
  cases hm : f.method? <;> simp [Profile.shown, hm, MethodFields.shown, MethodFields.isExplicit,
    Value.isTruthy]

namespace Catalog

variable {c : Catalog} {r : Registry} {e : EntityId} {x : EntityRecord} {l : Listing}
  {fs : List Filter}

/-- What the record of an entity shows. -/
theorem record_eq_ok (h : c.record e = .ok x) : x.path = c.path e ∧ x.name = (c.entity e).name ∧
    x.namespacePath? = (c.entity e).owner?.map c.path ∧
    x.profile = (c.entity e).profile.shown := by
  cases hm : (c.entity e).method? with
  | none =>
      obtain rfl := Except.ok.inj ((record_of_not_method hm).symm.trans h)
      refine ⟨rfl, rfl, rfl, ?_⟩
      simp [EntityRecord.profile, recordWith, Profile.shown, Entity.profile, hm]
  | some m =>
      cases hs : c.methodRecord e m with
      | error fault =>
          simp only [record, hm, hs] at h
          cases h
      | ok shown =>
          obtain rfl := Except.ok.inj ((record_of_method hm hs).symm.trans h)
          refine ⟨rfl, rfl, rfl, ?_⟩
          simp [EntityRecord.profile, recordWith, Profile.shown, Entity.profile, hm,
            said_of_methodRecord hs]

theorem forall₂_of_mapM {α β : Type} {f : α → Except Fault β} {l : List α} :
    ∀ {bs}, l.mapM f = .ok bs → List.Forall₂ (fun a b => f a = .ok b) l bs := by
  induction l with
  | nil =>
      intro bs h
      rw [← Except.ok.inj h]
      exact .nil
  | cons a l ih =>
      intro bs h
      rw [List.mapM_cons] at h
      cases ha : f a with
      | error fault => rw [ha] at h; cases h
      | ok b =>
          cases hl : l.mapM f with
          | error fault => rw [ha, hl] at h; cases h
          | ok rest =>
              rw [ha, hl] at h
              rw [← Except.ok.inj h]
              exact .cons ha (ih hl)

/-- A listing has a record for each entity, in their order. -/
theorem records_of_listing (h : c.listing r fs = .ok l) :
    l.records.map EntityRecord.path = (c.inOrder r fs).map c.path ∧
      ∀ x ∈ l.records, ∃ e ∈ c.inOrder r fs, c.record e = .ok x := by
  unfold listing at h
  cases hl : (c.inOrder r fs).mapM c.record with
  | error fault => rw [hl] at h; cases h
  | ok records =>
      rw [hl] at h
      rw [← Except.ok.inj h]
      have hrecords := forall₂_of_mapM hl
      constructor
      · rw [← List.forall₂_eq_eq_eq, List.forall₂_map_left_iff, List.forall₂_map_right_iff]
        exact hrecords.flip.imp fun x e hx => (record_eq_ok hx).1
      · intro x hx
        obtain ⟨i, hi, rfl⟩ := List.getElem_of_mem hx
        have hi' : i < (c.inOrder r fs).length := hrecords.length_eq ▸ hi
        exact ⟨_, List.getElem_mem hi', (List.forall₂_iff_get.1 hrecords).2 i hi' hi⟩

end Catalog

namespace Manifest

variable {r : Registry} {c : Catalog} {data : Value} {l : Listing} {x : EntityRecord} {p : String}
  {records : List EntityRecord} {last : Fields} {m : MethodRecord}

/-- Records show what a manifest means: each shows what is found at its path. -/
structure Exported (r : Registry) (data : Value) (records : List EntityRecord) : Prop where
  nodup : (records.map EntityRecord.path).Nodup
  complete : ∀ p, found r (rows data) p ≠ none → ∃ x ∈ records, x.path = p
  found_eq : ∀ x ∈ records, (found r (rows data) x.path).map Profile.shown = some x.profile
  /-- A method is shown with the namespace and the name that its entry gives. -/
  method : ∀ x ∈ records, ∀ last ∈ entriesIn data .methods, methodPath? r last = some x.path →
    x.namespacePath? = some (spaceOf .methods last) ∧ x.name = nameOf last

/-- The name of a method and the path of its namespace are those of any entry that gives its path. -/
theorem owner_of_methodPath? (hl : Lockstep r c) {e : EntityId}
    (hget : (c.entries r).get? p = some e) (hclean : Clean r .methods last)
    (hlast : methodPath? r last = some p) :
    (c.entity e).owner?.map c.path = some (spaceOf .methods last) ∧
      (c.entity e).name = nameOf last := by
  have hx := hl.placed_of_get? hget
  have hpx := hl.plainIn hx
  obtain ⟨s, -, hpath⟩ := methodPath?_eq_some hclean hlast
  have hsame : r.separators.render (ownerNames (c.entity e).lineage) (c.entity e).name
      (c.entity e).scope? = r.separators.render (spaceNames r (spaceOf .methods last)) (nameOf last)
        (some s) := by
    rw [← hpx.path_eq (kind_ne_root_of_scope hx.kind), ← hpath]
    exact hl.keysHold.path_eq hget
  obtain ⟨hspace, hname, -⟩ := Separators.render_parts (s := r.separators) r.config.distinct
    hpx.ownerNames_plain hclean.space hx.plain (hclean.name rfl) hsame
  obtain ⟨n, ho, hn⟩ := hl.owner_of_get? hget
  refine ⟨?_, hname⟩
  rw [ho, Option.map_some, hn.path_eq, hspace, spacePath_spaceOf hclean]

/-- **What is exported of a registry shows what was loaded into it.** -/
theorem Loaded.exported (hl : Loaded r (rows data) c) (h : c.listing r [] = .ok l) :
    Exported r data l.records := by
  obtain ⟨hpaths, hrecords⟩ := records_of_listing h
  have hperm : (l.records.map EntityRecord.path).Perm ((c.held r []).map c.path) := by
    rw [hpaths, map_path_inOrder]
    exact List.mergeSort_perm _ _
  -- each record is that of an entity which is held at its path
  have hheld : ∀ x ∈ l.records, ∃ e, (c.entries r).get? x.path = some e ∧ c.record e = .ok x := by
    intro x hx
    obtain ⟨e, he, hrecord⟩ := hrecords x hx
    exact ⟨e, (record_eq_ok hrecord).1 ▸ get?_of_mem_inOrder hl.lockstep.keysHold he, hrecord⟩
  constructor
  · exact hperm.nodup_iff.2 (nodup_map_path_held hl.lockstep.keysHold [])
  · intro p hp
    rw [← hl.view_eq] at hp
    obtain ⟨f, hf⟩ := Option.ne_none_iff_exists'.1 hp
    have hmem : p ∈ (c.held r []).map c.path :=
      (mem_map_path_held hl.lockstep).2 ⟨f, hf, .inl rfl⟩
    exact List.mem_map.1 (hperm.mem_iff.2 hmem)
  · intro x hx
    obtain ⟨e, hget, hrecord⟩ := hheld x hx
    rw [← hl.view_eq, view, hget, (record_eq_ok hrecord).2.2.2]
    rfl
  · intro x hx last hlast hp
    obtain ⟨e, hget, hrecord⟩ := hheld x hx
    have hclean : Clean r .methods last := hl.clean (.methods, last) (mem_rows.2 hlast)
    obtain ⟨-, hname, hspace, -⟩ := record_eq_ok hrecord
    rw [hname, hspace]
    exact owner_of_methodPath? hl.lockstep hget hclean hp

/-! ### Lists of entries -/

/-- Of lists that some keys tell apart, what belongs to one key is the list of this key. -/
theorem filter_flatMap_of_nodup {α β κ : Type} {l : List α} {key : α → κ} {f : α → List β}
    {P : β → Bool} {a : α} (hnodup : (l.map key).Nodup) (ha : a ∈ l)
    (hP : ∀ a' ∈ l, ∀ b ∈ f a', P b = true ↔ key a' = key a) : (l.flatMap f).filter P = f a := by
  induction l with
  | nil => simp at ha
  | cons head l ih =>
      obtain ⟨hfresh, hnodup⟩ := List.nodup_cons.1 (List.map_cons ▸ hnodup)
      rw [List.flatMap_cons, List.filter_append]
      rcases List.mem_cons.1 ha with rfl | ha
      · have hhead : (f a).filter P = f a :=
          List.filter_eq_self.2 fun b hb => (hP a (by simp) b hb).2 rfl
        have hrest : (l.flatMap f).filter P = [] := by
          rw [List.filter_eq_nil_iff]
          intro b hb hPb
          obtain ⟨a', ha', hb⟩ := List.mem_flatMap.1 hb
          exact hfresh (List.mem_map.2 ⟨a', ha', (hP a' (by simp [ha']) b hb).1 hPb⟩)
        rw [hhead, hrest, List.append_nil]
      · have hhead : (f head).filter P = [] := by
          rw [List.filter_eq_nil_iff]
          intro b hb hPb
          exact hfresh (List.mem_map.2 ⟨a, ha, ((hP head (by simp) b hb).1 hPb).symm⟩)
        rw [hhead, List.nil_append]
        exact ih hnodup ha fun a' ha' => hP a' (by simp [ha'])

/-- When the repetitions in a list are left out, there are none to leave out again. -/
theorem eraseDups_eraseDups {α : Type} [BEq α] [LawfulBEq α] (l : List α) :
    l.eraseDups.eraseDups = l.eraseDups := by
  induction l using List.reverseRecOn with
  | nil => rfl
  | append_singleton l a ih =>
      have hone : [a].eraseDups = [a] := rfl
      rw [List.eraseDups_append]
      by_cases ha : a ∈ l
      · have hnew : [a].removeAll l = [] := by simp [List.removeAll, ha]
        rw [hnew, List.eraseDups_nil, List.append_nil, ih]
      · have hnew : [a].removeAll l = [a] := by simp [List.removeAll, ha]
        have hnew' : [a].removeAll l.eraseDups = [a] := by simp [List.removeAll, ha]
        rw [hnew, hone, List.eraseDups_append, ih, hnew', hone]

/-! ### Paths of namespaces -/

section Paths

variable (hclean : ∀ part, ∀ entry ∈ entriesIn data part, Clean r part entry)
include hclean

/-- The names along the path of a namespace are those that it was made of. -/
theorem IsSpacePath.spaceNames_eq (hp : IsSpacePath r data p) : spaceNames r p ≠ [] ∧
    ∃ part, ∃ entry ∈ entriesIn data part, spaceNames r p <+: spaceNames r (spaceOf part entry) := by
  obtain ⟨part, entry, he, names, hne, hpre, rfl⟩ := hp
  have hplain : ∀ name ∈ names, r.separators.Plain name := fun name hname =>
    (hclean part entry he).space name (hpre.subset hname)
  rw [spaceNames_spacePath hplain]
  exact ⟨hne, part, entry, he, hpre⟩

theorem IsSpacePath.plain (hp : IsSpacePath r data p) :
    ∀ name ∈ spaceNames r p, r.separators.Plain name := by
  obtain ⟨-, part, entry, he, hpre⟩ := hp.spaceNames_eq hclean
  exact fun name hname => (hclean part entry he).space name (hpre.subset hname)

/-- A namespace on the way to a namespace is on the way to what is mentioned. -/
theorem IsSpacePath.of_prefix (hp : IsSpacePath r data p) {names : List String} (hne : names ≠ [])
    (hpre : names <+: spaceNames r p) : IsSpacePath r data (r.separators.spacePath names) := by
  obtain ⟨-, part, entry, he, hpre'⟩ := hp.spaceNames_eq hclean
  exact ⟨part, entry, he, names, hne, hpre.trans hpre', rfl⟩

end Paths

/-! ### Records of methods -/

/-- A record shows what an entry says about a method. -/
structure Retells (r : Registry) (x : EntityRecord) (last : Fields) (m : MethodRecord) : Prop where
  kind : x.kind = .method
  path : methodPath? r last = some x.path
  method : x.method? = some m
  space : x.namespacePath? = some (spaceOf .methods last)
  name : x.name = nameOf last
  fields : (methodFieldsOf? r last).map MethodFields.shown = some m.said
  docstring : x.docstring = (docstringOf? last).getD (.text "")
  files : x.files = (placeOf? last).toList

/-- The entry that restates the record of a method. -/
def retold (x : EntityRecord) (last : Fields) (m : MethodRecord) : Fields :=
  methodEntry (spaceOf .methods last) (nameOf last) m x.docstring x.files.head?

theorem clean_retold (x : EntityRecord) (m : MethodRecord) (hclean : Clean r .methods last) :
    Clean r .methods (retold x last m) := by
  constructor
  · rw [retold, spaceOf_methodEntry]
    exact hclean.space
  · rw [retold, nameOf_methodEntry]
    exact hclean.name

namespace Retells

variable (h : Retells r x last m)
include h

theorem entries_eq : methodEntriesOf x.fields = [retold x last m] := by
  rw [methodEntriesOf_of_method h.kind h.method h.space, h.name, retold]

theorem exists_fields : ∃ fields, methodFieldsOf? r last = some fields ∧
    scopeOf? last = some m.scope ∧ m.parameters = fields.parameters := by
  obtain ⟨fields, hfields, hsaid⟩ := Option.map_eq_some_iff.1 h.fields
  refine ⟨fields, hfields, ?_, (congrArg MethodFields.parameters hsaid).symm⟩
  obtain ⟨scope, hscope, hrest⟩ := Option.bind_eq_some_iff.1 hfields
  obtain ⟨visibility, -, hrest⟩ := Option.bind_eq_some_iff.1 hrest
  obtain ⟨ps, -, hlist⟩ := Option.bind_eq_some_iff.1 hrest
  have hsame : fields.scope = m.scope := congrArg MethodFields.scope hsaid
  rw [hscope, ← hsame, ← Option.some.inj hlist]

/-- The record is restated at its own path. -/
theorem methodPath?_retold : methodPath? r (retold x last m) = some x.path := by
  obtain ⟨-, -, hscope, -⟩ := h.exists_fields
  rw [← h.path, methodPath?, methodPath?, hscope, retold, scopeOf?_methodEntry,
    spaceOf_methodEntry, nameOf_methodEntry]

/-- The record is restated as it is. -/
theorem methodProfile?_retold : methodProfile? r (retold x last m) = some x.profile := by
  rw [retold, methodProfile?_methodEntry, EntityRecord.profile, h.kind, h.method, h.files]
  cases placeOf? last <;> rfl

theorem legible_retold (hlegible : Legible .methods last) :
    Legible .methods (retold x last m) := by
  obtain ⟨fields, hfields, -, hparameters⟩ := h.exists_fields
  obtain ⟨hdocstring, hplace⟩ := annotated_iff.1 hlegible.2.2.2.annotated
  refine legible_methodEntry _ _ ?_ ?_ fun place hhead => hplace place ?_
  · rw [h.docstring]
    cases hd : docstringOf? last with
    | none => exact ⟨"", rfl⟩
    | some v => exact hdocstring v hd
  · rw [hparameters]
    exact isParameter_of_legible hlegible hfields
  · rw [h.files] at hhead
    simpa using hhead

end Retells

/-! ### What the entries say -/

theorem spaceDocstring_of_legible {entries : List Fields}
    (h : ∀ entry ∈ entries, Legible .namespaces entry) (path : String) :
    ∃ s, spaceDocstring entries path = .text s := by
  rw [spaceDocstring]
  cases hlast : ((entriesAt entries path).filterMap docstringOf?).getLast? with
  | none => exact ⟨"", rfl⟩
  | some v =>
      obtain ⟨entry, he, hv⟩ := List.mem_filterMap.1 (List.mem_of_getLast? hlast)
      exact (annotated_iff.1 (h entry (List.mem_of_mem_filter he)).2).1 v hv

theorem isPlace_of_mem_spaceFiles {entries : List Fields} {path : String}
    (h : ∀ entry ∈ entries, Legible .namespaces entry) {place : Value × Value}
    (hplace : place ∈ spaceFiles entries path) : IsPlace place := by
  rw [spaceFiles, List.mem_eraseDups] at hplace
  obtain ⟨entry, he, hp⟩ := List.mem_filterMap.1 hplace
  exact (annotated_iff.1 (h entry (List.mem_of_mem_filter he)).2).2 place hp

namespace Exported

variable (h : Exported r data records)
include h

/-- A record at the path of a namespace shows what the entries of the path say together. -/
theorem profile_eq (hx : x ∈ records) (hp : IsSpacePath r data x.path) :
    x.profile = spaceProfile (entriesIn data .namespaces) x.path := by
  have hfound := h.found_eq x hx
  rw [found_of_isSpacePath hp] at hfound
  exact (Option.some.inj hfound).symm

/-- A record at any other path shows what the last entry of a method says. -/
theorem retells (hx : x ∈ records) (hp : ¬ IsSpacePath r data x.path) :
    ∃ last ∈ entriesIn data .methods, ∃ m, Retells r x last m := by
  have hfound := h.found_eq x hx
  rw [found_of_not_isSpacePath hp] at hfound
  obtain ⟨f, hf, hshown⟩ := Option.map_eq_some_iff.1 hfound
  obtain ⟨last, hlast, hprofile⟩ := Option.bind_eq_some_iff.1 hf
  obtain ⟨fields, hfields, rfl⟩ := Option.map_eq_some_iff.1 hprofile
  obtain ⟨hmem, hpath⟩ := List.mem_filter.1 (List.mem_of_getLast? hlast)
  have hpath : methodPath? r last = some x.path := by simpa using hpath
  obtain ⟨hspace, hname⟩ := h.method x hx last hmem hpath
  have hmethod : some fields.shown = x.method?.map MethodRecord.said :=
    congrArg Profile.method? hshown
  obtain ⟨m, hm, hsaid⟩ := Option.map_eq_some_iff.1 hmethod.symm
  exact ⟨last, hmem, m, (congrArg Profile.kind hshown).symm, hpath, hm, hspace, hname,
    by rw [hfields, hsaid]; rfl, (congrArg Profile.docstring hshown).symm,
    (congrArg Profile.files hshown).symm⟩

/-- What restates a record among the namespaces restates a namespace, and one of its places. -/
theorem of_mem_spaceEntriesOf {entry : Fields} (hx : x ∈ records)
    (he : entry ∈ spaceEntriesOf x.fields) : IsSpacePath r data x.path ∧
      ∃ place? ∈ placesOrNone x.files, entry = spaceEntry x.path x.docstring place? := by
  by_cases hp : IsSpacePath r data x.path
  · have hkind : x.kind = .space := congrArg Profile.kind (h.profile_eq hx hp)
    rw [spaceEntriesOf_of_space hkind] at he
    obtain ⟨place?, hplace, rfl⟩ := List.mem_map.1 he
    exact ⟨hp, place?, hplace, rfl⟩
  · obtain ⟨last, -, m, hm⟩ := h.retells hx hp
    rw [spaceEntriesOf_of_method hm.kind] at he
    cases he

/-- What restates a record among the methods restates a method. -/
theorem of_mem_methodEntriesOf {entry : Fields} (hx : x ∈ records)
    (he : entry ∈ methodEntriesOf x.fields) :
    ∃ last ∈ entriesIn data .methods, ∃ m, Retells r x last m ∧ entry = retold x last m := by
  by_cases hp : IsSpacePath r data x.path
  · have hkind : x.kind = .space := congrArg Profile.kind (h.profile_eq hx hp)
    rw [methodEntriesOf_of_space hkind] at he
    cases he
  · obtain ⟨last, hlast, m, hm⟩ := h.retells hx hp
    rw [hm.entries_eq] at he
    exact ⟨last, hlast, m, hm, List.mem_singleton.1 he⟩

end Exported

theorem entriesIn_manifestOf (l : Listing) (part : Part) :
    entriesIn (manifestOf l.toValue) part = match part with
      | .namespaces => l.records.flatMap fun x => spaceEntriesOf x.fields
      | .methods => l.records.flatMap fun x => methodEntriesOf x.fields
      | _ => [] := by
  rw [manifestOf, entriesIn_ofSections, entitiesOf_toValue]
  cases part <;> simp [List.flatMap_map]

/-- An entry of an export restates a record of a namespace or of a method. -/
theorem of_mem_manifestOf {part : Part} {entry : Fields}
    (he : entry ∈ entriesIn (manifestOf l.toValue) part) : ∃ x ∈ l.records,
      (part = .namespaces ∧ entry ∈ spaceEntriesOf x.fields) ∨
        (part = .methods ∧ entry ∈ methodEntriesOf x.fields) := by
  rw [entriesIn_manifestOf] at he
  cases part with
  | namespaces =>
      obtain ⟨x, hx, hentry⟩ := List.mem_flatMap.1 he
      exact ⟨x, hx, .inl ⟨rfl, hentry⟩⟩
  | methods =>
      obtain ⟨x, hx, hentry⟩ := List.mem_flatMap.1 he
      exact ⟨x, hx, .inr ⟨rfl, hentry⟩⟩
  | attributes => cases he
  | aliases => cases he

namespace Exported

section Manifests

variable (h : Exported r data l.records)
  (hclean : ∀ part, ∀ entry ∈ entriesIn data part, Clean r part entry)
include h

/-- The entries about the path of a record are those that restate it. -/
theorem entriesAt_manifestOf (hx : x ∈ l.records) :
    entriesAt (entriesIn (manifestOf l.toValue) .namespaces) x.path = spaceEntriesOf x.fields := by
  rw [entriesIn_manifestOf, entriesAt]
  refine filter_flatMap_of_nodup h.nodup hx fun x' hx' entry he => ?_
  obtain ⟨-, place?, -, rfl⟩ := h.of_mem_spaceEntriesOf hx' he
  simp [spaceOf_spaceEntry]

/-- The last entry about the method at the path of a record is the one that restates it. -/
theorem lastAt_manifestOf (hx : x ∈ l.records) :
    lastAt r (entriesIn (manifestOf l.toValue) .methods) x.path =
      (methodEntriesOf x.fields).getLast? := by
  rw [entriesIn_manifestOf, lastAt]
  refine congrArg List.getLast? (filter_flatMap_of_nodup h.nodup hx fun x' hx' entry he => ?_)
  obtain ⟨last, -, m, hm, rfl⟩ := h.of_mem_methodEntriesOf hx' he
  simp [hm.methodPath?_retold]

/-- The entries of a namespace together say what is exported of it. -/
theorem spaceProfile_manifestOf (hx : x ∈ l.records) (hp : IsSpacePath r data x.path) :
    spaceProfile (entriesIn (manifestOf l.toValue) .namespaces) x.path = x.profile := by
  have hprofile := h.profile_eq hx hp
  have hkind : x.kind = .space := congrArg Profile.kind hprofile
  have hdocstring : x.docstring = spaceDocstring (entriesIn data .namespaces) x.path :=
    congrArg Profile.docstring hprofile
  have hfiles : x.files = spaceFiles (entriesIn data .namespaces) x.path :=
    congrArg Profile.files hprofile
  -- the places were left out once when they came again, so none comes again now
  have hdups : x.files.eraseDups = x.files := by
    rw [hfiles, spaceFiles, eraseDups_eraseDups]
  rw [hprofile, spaceProfile, spaceDocstring, spaceFiles, h.entriesAt_manifestOf hx,
    spaceEntriesOf_of_space hkind, getLast?_docstrings, filterMap_placeOf?, hdups,
    Option.getD_some, hdocstring, hfiles, spaceProfile]

include hclean

theorem clean_manifestOf : ∀ part, ∀ entry ∈ entriesIn (manifestOf l.toValue) part,
    Clean r part entry := by
  intro part entry he
  obtain ⟨x, hx, ⟨rfl, hentry⟩ | ⟨rfl, hentry⟩⟩ := of_mem_manifestOf he
  · obtain ⟨hp, place?, -, rfl⟩ := h.of_mem_spaceEntriesOf hx hentry
    refine ⟨?_, by simp⟩
    rw [spaceOf_spaceEntry]
    exact hp.plain hclean
  · obtain ⟨last, hlast, m, -, rfl⟩ := h.of_mem_methodEntriesOf hx hentry
    exact clean_retold x m (hclean .methods last hlast)

/-- An export mentions the namespaces that the manifest mentioned, and no others. -/
theorem isSpacePath_manifestOf :
    IsSpacePath r (manifestOf l.toValue) p ↔ IsSpacePath r data p := by
  constructor
  · rintro ⟨part, entry, he, names, hne, hpre, rfl⟩
    obtain ⟨x, hx, ⟨rfl, hentry⟩ | ⟨rfl, hentry⟩⟩ := of_mem_manifestOf he
    · obtain ⟨hp, place?, -, rfl⟩ := h.of_mem_spaceEntriesOf hx hentry
      rw [spaceOf_spaceEntry] at hpre
      exact hp.of_prefix hclean hne hpre
    · obtain ⟨last, hlast, m, -, rfl⟩ := h.of_mem_methodEntriesOf hx hentry
      rw [retold, spaceOf_methodEntry] at hpre
      exact ⟨.methods, last, hlast, names, hne, hpre, rfl⟩
  · intro hp
    obtain ⟨x, hx, rfl⟩ := h.complete p (by simp [found_of_isSpacePath hp])
    have hkind : x.kind = .space := congrArg Profile.kind (h.profile_eq hx hp)
    obtain ⟨place?, hplace⟩ := List.exists_mem_of_ne_nil _ (placesOrNone_ne_nil x.files)
    refine ⟨.namespaces, spaceEntry x.path x.docstring place?, ?_, spaceNames r x.path,
      (hp.spaceNames_eq hclean).1, ?_, ?_⟩
    · rw [entriesIn_manifestOf]
      refine List.mem_flatMap.2 ⟨x, hx, ?_⟩
      rw [spaceEntriesOf_of_space hkind]
      exact List.mem_map_of_mem hplace
    · simpa only [spaceOf_spaceEntry] using List.prefix_refl _
    · exact (spacePath_spaceNames fun name hname => (hp.plain hclean name hname).1).symm

/-- What an export means at the path of a record is what the record shows. -/
theorem found_manifestOf_of_mem (hx : x ∈ l.records) :
    found r (rows (manifestOf l.toValue)) x.path = some x.profile := by
  have hspace := h.isSpacePath_manifestOf hclean (p := x.path)
  by_cases hp : IsSpacePath r data x.path
  · rw [found_of_isSpacePath (hspace.2 hp), h.spaceProfile_manifestOf hx hp]
  · obtain ⟨last, -, m, hm⟩ := h.retells hx hp
    rw [found_of_not_isSpacePath (mt hspace.1 hp), h.lastAt_manifestOf hx, hm.entries_eq,
      List.getLast?_singleton, Option.bind_some, hm.methodProfile?_retold]

/-- Where there is no record, nothing was meant and nothing is restated. -/
theorem found_manifestOf_of_not_mem (hno : ¬ ∃ x ∈ l.records, x.path = p) :
    found r (rows data) p = none ∧ found r (rows (manifestOf l.toValue)) p = none := by
  have hnone : found r (rows data) p = none := by
    by_contra hne
    exact hno (h.complete p hne)
  have hp : ¬ IsSpacePath r data p := by
    intro hp
    rw [found_of_isSpacePath hp] at hnone
    cases hnone
  have hlast : lastAt r (entriesIn (manifestOf l.toValue) .methods) p = none := by
    refine lastAt_eq_none fun entry he hpath => hno ?_
    obtain ⟨x, hx, ⟨hpart, -⟩ | ⟨-, hentry⟩⟩ := of_mem_manifestOf he
    · cases hpart
    · obtain ⟨last, -, m, hm, rfl⟩ := h.of_mem_methodEntriesOf hx hentry
      exact ⟨x, hx, Option.some.inj (hm.methodPath?_retold.symm.trans hpath)⟩
  rw [found_of_not_isSpacePath (mt (h.isSpacePath_manifestOf hclean).1 hp), hlast]
  exact ⟨hnone, rfl⟩

/-- **An export means what the manifest meant**, as far as it is shown. -/
theorem found_manifestOf (p : String) :
    (found r (rows (manifestOf l.toValue)) p).map Profile.shown =
      (found r (rows data) p).map Profile.shown := by
  by_cases hrecord : ∃ x ∈ l.records, x.path = p
  · obtain ⟨x, hx, rfl⟩ := hrecord
    obtain ⟨f, hf, hshown⟩ := Option.map_eq_some_iff.1 (h.found_eq x hx)
    rw [h.found_manifestOf_of_mem hclean hx, hf, Option.map_some, Option.map_some, ← hshown,
      Profile.shown_shown]
  · obtain ⟨hnone, hnone'⟩ := h.found_manifestOf_of_not_mem hclean hrecord
    rw [hnone, hnone']

end Manifests

/-- The entries of an export can be read. -/
theorem legible_manifestOf (h : Exported r data l.records)
    (hlegible : ∀ part, ∀ entry ∈ entriesIn data part, Legible part entry) :
    ∀ part, ∀ entry ∈ entriesIn (manifestOf l.toValue) part, Legible part entry := by
  intro part entry he
  obtain ⟨x, hx, ⟨rfl, hentry⟩ | ⟨rfl, hentry⟩⟩ := of_mem_manifestOf he
  · obtain ⟨hp, place?, hplace, rfl⟩ := h.of_mem_spaceEntriesOf hx hentry
    have hprofile := h.profile_eq hx hp
    have hdocstring : x.docstring = spaceDocstring (entriesIn data .namespaces) x.path :=
      congrArg Profile.docstring hprofile
    have hfiles : x.files = spaceFiles (entriesIn data .namespaces) x.path :=
      congrArg Profile.files hprofile
    refine legible_spaceEntry _ ?_ ?_
    · rw [hdocstring]
      exact spaceDocstring_of_legible (hlegible .namespaces) x.path
    · rintro place rfl
      have hmem : place ∈ spaceFiles (entriesIn data .namespaces) x.path :=
        hfiles ▸ mem_of_mem_placesOrNone hplace
      exact isPlace_of_mem_spaceFiles (hlegible .namespaces) hmem
  · obtain ⟨last, hlast, m, hm, rfl⟩ := h.of_mem_methodEntriesOf hx hentry
    exact hm.legible_retold (hlegible .methods last hlast)

end Exported

/-- **What is exported of a registry that was filled from namespaces and methods is accepted into a
new registry, and shown like the first.** -/
theorem load_manifestOf {s s' : Session} (hs : s.Reachable) (hs' : s'.Reachable) (config : Config)
    {data : Value} {c : Catalog}
    (hclean : ∀ part, ∀ entry ∈ entriesIn data part,
      Clean (s.catalog.openRegistry config).1 part entry)
    (hattributes : entriesIn data .attributes = []) (haliases : entriesIn data .aliases = [])
    (hok : load (s.catalog.openRegistry config).1 data (s.catalog.openRegistry config).2 =
      (.ok (), c)) :
    ∃ exported, c.listing (s.catalog.openRegistry config).1 [] = .ok exported ∧
      ∃ c', load (s'.catalog.openRegistry config).1 (manifestOf exported.toValue)
          (s'.catalog.openRegistry config).2 = (.ok (), c') ∧
        ∀ fs, ∃ listing, c.listing (s.catalog.openRegistry config).1 fs = .ok listing ∧
          c'.listing (s'.catalog.openRegistry config).1 fs = .ok listing := by
  have hloaded := Loaded.of_load hs hclean hok
  have hlegible := ((fresh_succeeds_iff hs hclean).1 ⟨_, c, hok⟩).2.1
  obtain ⟨exported, hexported⟩ := hloaded.listing_ok []
  have hshown := hloaded.exported hexported
  have hclean' : ∀ part, ∀ entry ∈ entriesIn (manifestOf exported.toValue) part,
      Clean (s'.catalog.openRegistry config).1 part entry := fun part entry he =>
    (hshown.clean_manifestOf hclean part entry he).congr
      (r := (s.catalog.openRegistry config).1) rfl
  obtain ⟨_, c', hrun⟩ := (fresh_succeeds_iff hs' hclean').2
    ⟨shaped_ofSections, hshown.legible_manifestOf hlegible, fun part entry he p hp => by
      obtain ⟨x, hx, ⟨rfl, -⟩ | ⟨rfl, -⟩⟩ := of_mem_manifestOf he <;> cases hp⟩
  have hloaded' := Loaded.of_load hs' hclean' hrun
  -- neither manifest has attributes or aliases to write down
  have hreferring : referring (manifestOf exported.toValue) = referring data := by
    rw [referring, referring, entriesIn_manifestOf, entriesIn_manifestOf, hattributes, haliases]
  refine ⟨exported, hexported, c', hrun, hloaded.listing_eq hloaded' rfl
    (hshown.found_manifestOf hclean) ?_⟩
  rw [foldl_enter_rows, foldl_enter_rows, hreferring]

/-- A method of the top level, which has no namespace to name, two methods of one name, a parameter
with a default and one without, and a namespace with two places are read again. -/
theorem load_manifestOf_cart :
    let data : Value := .dict [
      ("namespaces", .list [
        .dict [("path", .text "Shop::Cart"), ("docstring", .text "A cart."),
          ("file", .text "cart.py"), ("line", .int 3)],
        .dict [("path", .text "Shop::Cart"), ("file", .text "shop.py")]]),
      ("methods", .list [
        .dict [("name", .text "main")],
        .dict [("namespace", .text "Shop::Cart"), ("name", .text "add"),
          ("parameters", .list [.text "item", .list [.text "count", .text "1"]]),
          ("visibility", .text " :Private"), ("explicit", .int 2), ("file", .text "cart.py")],
        .dict [("namespace", .text "Shop::Cart"), ("name", .text "add"),
          ("scope", .text "class")]])]
    let c₀ := (({} : Catalog).openRegistry {}).2
    let r := (({} : Catalog).openRegistry {}).1
    let c := (load r data c₀).2
    c.paths r = ["Shop", "Shop::Cart", "#main", "Shop::Cart#add", "Shop::Cart.add"] ∧
      ∃ exported, c.listing r [] = .ok exported ∧
        ∃ c', load r (manifestOf exported.toValue) c₀ = (.ok (), c') ∧
          ∀ fs, ∃ listing, c.listing r fs = .ok listing ∧ c'.listing r fs = .ok listing := by
  intro data c₀ r c
  have hok : (load r data c₀).1.toBool = true := by decide +kernel
  obtain ⟨_, hrun⟩ := Action.exists_eq_ok hok
  have hclean : ∀ part, ∀ entry ∈ entriesIn data part, Clean r part entry := by
    intro part
    cases part <;> decide +kernel
  have hnew : ({} : Session).Reachable := .refl
  exact ⟨by decide +kernel, load_manifestOf hnew hnew {} hclean
    (by decide +kernel) (by decide +kernel) hrun⟩

end Manifest

end DocCatalog
