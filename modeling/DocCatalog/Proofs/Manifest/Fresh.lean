/-
**What a registry shows after manifests were loaded.**

What a registry shows that was filled by manifests alone is told by their entries and the settings:
what is found at its paths, what its namespaces have written down, and that all of it can be shown.
Which catalog the registry was opened in, and as which of its registries, shows nowhere.

Main definitions:

* `Manifest.Loaded`: a registry in which some entries were loaded, and nothing else.

Main results:

* `Manifest.Loaded.extend`, `Manifest.Loaded.of_load`: **what is loaded after a manifest is accepted**;
* `Manifest.Loaded.succeeds_iff`: whether a manifest is accepted after some entries;
* `Manifest.Loaded.listing_eq`: **entries that say and write down the same are shown alike**.
-/

import DocCatalog.Proofs.Export.Alike
import DocCatalog.Proofs.Manifest.Noted

set_option autoImplicit false

namespace DocCatalog.Manifest

open Catalog

variable {c c' : Catalog} {r r' : Registry} {entry : Fields} {part : Part} {data : Value}
  {l l' : List (Part × Fields)}

/-! ### The settings of a registry -/

theorem found_congr (h : r'.config = r.config) : found r' l = found r l := by
  obtain ⟨i, config⟩ := r
  obtain ⟨j, config'⟩ := r'
  cases h
  rfl

theorem methodPath?_congr (h : r'.config = r.config) : methodPath? r' = methodPath? r := by
  obtain ⟨i, config⟩ := r
  obtain ⟨j, config'⟩ := r'
  cases h
  rfl

theorem Clean.congr (h : r'.config = r.config) (hclean : Clean r part entry) :
    Clean r' part entry := by
  obtain ⟨i, config⟩ := r
  obtain ⟨j, config'⟩ := r'
  cases h
  exact ⟨hclean.space, hclean.name⟩

/-! ### What can be shown -/

theorem parametersOf?_of_methodFieldsOf? {fields : MethodFields}
    (h : methodFieldsOf? r entry = some fields) : parametersOf? entry = some fields.parameters := by
  obtain ⟨scope, -, h₁⟩ := Option.bind_eq_some_iff.1 h
  obtain ⟨visibility, -, h₂⟩ := Option.bind_eq_some_iff.1 h₁
  obtain ⟨ps, hps, h₃⟩ := Option.bind_eq_some_iff.1 h₂
  rw [hps, ← Option.some.inj h₃]

/-- The parameters of a method that can be read are found right. -/
theorem isParameter_of_legible (hlegible : Legible .methods entry) {fields : MethodFields}
    (hfields : methodFieldsOf? r entry = some fields) :
    ∀ q ∈ fields.parameters, isParameter (.list [q.name, q.default]) = true := by
  obtain ⟨items, hitems⟩ := hlegible.2.2.2.parameters
  have hright := isParameter_of_parameters hitems
  obtain ⟨ps, hps⟩ := ofItems_of_isParameter hright
  have hsaid : parametersOf? entry = some ps := parameters_eq_ok hitems hps
  rw [parametersOf?_of_methodFieldsOf? hfields] at hsaid
  rw [Option.some.inj hsaid]
  exact isParameter_of_mapM hright (ofItems_eq_ok hps)

theorem printable_of_legible (hlegible : Legible .methods entry) {f : Profile}
    (hf : methodProfile? r entry = some f) : f.Printable := by
  obtain ⟨fields, hfields, rfl⟩ := Option.map_eq_some_iff.1 hf
  intro m hm q hq
  obtain rfl := Option.some.inj hm
  exact name_of_isParameter (isParameter_of_legible hlegible hfields q hq)

/-! ### What is loaded -/

/-- A registry in which some entries were loaded, and nothing else: it is in step, everything is found
in it as the entries say, and what they write down is written down. -/
structure Loaded (r : Registry) (l : List (Part × Fields)) (c : Catalog) : Prop where
  clean : ∀ row ∈ l, Clean r row.1 row.2
  accepted : ∀ row ∈ l, Accepted r row.1 row.2
  legible : ∀ row ∈ l, Legible row.1 row.2
  lockstep : Lockstep r c
  aliasesHeld : AliasesHeld r c
  view_eq : c.view r = found r l
  notes_eq : c.notes r = l.foldl (fun w row => w.enter row.1 row.2) .blank

/-- Entries that describe namespaces and methods write nothing down. -/
theorem foldl_enter_rows (data : Value) (w : Notes) :
    (rows data).foldl (fun w row => w.enter row.1 row.2) w =
      (referring data).foldl (fun w row => w.enter row.1 row.2) w := by
  have hattributes : sectionOf .attributes (rows data) = sectionOf .attributes (referring data) := by
    rw [sectionOf_rows]
    simp [referring, sectionOf, List.filterMap_append, List.filterMap_map]
  have haliases : sectionOf .aliases (rows data) = sectionOf .aliases (referring data) := by
    rw [sectionOf_rows]
    simp [referring, sectionOf, List.filterMap_append, List.filterMap_map]
  exact Notes.foldl_enter_congr w hattributes haliases

namespace Loaded

/-- In a new registry nothing is loaded. -/
theorem fresh {s : Session} (hs : s.Reachable) (config : Config) :
    Loaded (s.catalog.openRegistry config).1 [] (s.catalog.openRegistry config).2 := by
  obtain ⟨hwf, hkeys, -⟩ := Session.Reachable.sound hs
  have hslots := (Session.Reachable.writes hs).slotsHold wellFormed_empty slotsHold_empty
  refine ⟨by simp, by simp, by simp, lockstep_openRegistry hwf hkeys hslots config,
    aliasesHeld_fresh _ config, ?_, notes_fresh _ config⟩
  funext p
  rw [view, entries_fresh, OrderedTable.get?_empty]
  rfl

/-- The methods that are found are those that the entries describe. -/
theorem hasMethod_iff (hl : Loaded r l c) {p : String} : (c.view r).HasMethod p ↔
    ∃ entry ∈ sectionOf .methods l, methodPath? r entry = some p := by
  rw [hl.view_eq, ← foldl_step_eq_found hl.clean hl.accepted, hasMethod_foldl_step hl.accepted]
  simp [View.HasMethod]

/-- **A manifest that is accepted is loaded after what was loaded before**, if it describes no method
again. -/
theorem extend (hl : Loaded r l c)
    (hclean : ∀ part, ∀ entry ∈ entriesIn data part, Clean r part entry)
    (hapart : ∀ entry ∈ sectionOf .methods l, ∀ entry' ∈ entriesIn data .methods,
      methodKey? entry ≠ methodKey? entry')
    (hok : load r data c = (.ok (), c')) : Loaded r (l ++ rows data) c' := by
  obtain ⟨haccepted, hlock, hview⟩ := load_ok hl.lockstep hclean hok
  have hadmissible := (load_succeeds_iff hl.lockstep hclean).1 ⟨_, c', hok⟩
  have hcleanAll : ∀ row ∈ l ++ rows data, Clean r row.1 row.2 := by
    rw [List.forall_mem_append]
    exact ⟨hl.clean, fun row hrow => hclean row.1 row.2 (mem_rows.1 hrow)⟩
  have hacceptedAll : ∀ row ∈ l ++ rows data, Accepted r row.1 row.2 := by
    rw [List.forall_mem_append]
    exact ⟨hl.accepted, fun row hrow => haccepted row.1 row.2 (mem_rows.1 hrow)⟩
  have hlegibleAll : ∀ row ∈ l ++ rows data, Legible row.1 row.2 := by
    rw [List.forall_mem_append]
    exact ⟨hl.legible, fun row hrow => hadmissible.legible row.1 row.2 (mem_rows.1 hrow)⟩
  -- an alias is a method that was described before, so none is described again
  have hfree : ∀ entry ∈ entriesIn data .methods, ∀ q,
      methodPath? r entry = some q → ¬ (c.notes r).IsAlias q := by
    intro entry he q hq halias
    obtain ⟨old, hold, hp⟩ := hl.hasMethod_iff.1 (hl.aliasesHeld.view_of_isAlias halias)
    have hcleanOld : Clean r .methods old := hl.clean (.methods, old) (mem_sectionOf.1 hold)
    exact hapart old hold entry he
      ((methodPath?_eq_iff (hclean .methods entry he) hcleanOld hq).1 hp)
  obtain ⟨hnotes, haliases⟩ := load_notes hl.lockstep hclean hl.aliasesHeld hfree hok
  refine ⟨hcleanAll, hacceptedAll, hlegibleAll, hlock, haliases, ?_, ?_⟩
  · rw [← foldl_step_eq_found hcleanAll hacceptedAll, List.foldl_append,
      foldl_step_eq_found hl.clean hl.accepted, ← hl.view_eq]
    exact hview
  · rw [List.foldl_append, ← hl.notes_eq, foldl_enter_rows]
    exact hnotes

/-- Whether a manifest is accepted, it tells together with what was loaded before. -/
theorem succeeds_iff (hl : Loaded r l c)
    (hclean : ∀ part, ∀ entry ∈ entriesIn data part, Clean r part entry) :
    (load r data).Succeeds c ↔ Shaped data ∧
      (∀ part, ∀ entry ∈ entriesIn data part, Legible part entry) ∧
      ∀ part, ∀ entry ∈ entriesIn data part, ∀ p ∈ references part entry,
        ∃ entry' ∈ sectionOf .methods l ++ entriesIn data .methods, methodPath? r entry' = some p := by
  have hknown : ∀ p, ((c.view r).HasMethod p ∨
      ∃ entry' ∈ entriesIn data .methods, methodPath? r entry' = some p) ↔
        ∃ entry' ∈ sectionOf .methods l ++ entriesIn data .methods,
          methodPath? r entry' = some p := by
    intro p
    rw [hl.hasMethod_iff]
    simp only [List.mem_append, or_and_right, exists_or]
  rw [load_succeeds_iff hl.lockstep hclean]
  constructor
  · rintro ⟨hshaped, hlegible, hreferred⟩
    exact ⟨hshaped, hlegible, fun part entry he p hp => (hknown p).1 (hreferred part entry he p hp)⟩
  · rintro ⟨hshaped, hlegible, hreferred⟩
    exact ⟨hshaped, hlegible, fun part entry he p hp => (hknown p).2 (hreferred part entry he p hp)⟩

/-- What is accepted into a new registry is all that is loaded there. -/
theorem of_load {s : Session} (hs : s.Reachable) {config : Config}
    (hclean : ∀ part, ∀ entry ∈ entriesIn data part,
      Clean (s.catalog.openRegistry config).1 part entry)
    (hok : load (s.catalog.openRegistry config).1 data (s.catalog.openRegistry config).2 =
      (.ok (), c)) : Loaded (s.catalog.openRegistry config).1 (rows data) c := by
  have hloaded := (fresh hs config).extend hclean (by simp [sectionOf]) hok
  rwa [List.nil_append] at hloaded

theorem printable (hl : Loaded r l c) {p : String} {f : Profile} (hf : found r l p = some f) :
    f.Printable := by
  unfold found told at hf
  split at hf
  · rw [← Option.some.inj hf]
    intro m hm
    cases hm
  · obtain ⟨entry, hlast, hprofile⟩ := Option.bind_eq_some_iff.1 hf
    have hentry := List.mem_of_mem_filter (List.mem_of_getLast? hlast)
    exact printable_of_legible (hl.legible (.methods, entry) (mem_sectionOf.1 hentry)) hprofile

/-- A registry in which some entries were loaded has a listing. -/
theorem listing_ok (hl : Loaded r l c) (fs : List Filter) : ∃ listing, c.listing r fs = .ok listing :=
  hl.lockstep.keysHold.listing_ok (fun p f hf => hl.printable (by rwa [hl.view_eq] at hf)) fs

/-- **Registries of the same settings are shown alike** if what their entries say and write down is
the same, as far as it is shown. -/
theorem listing_eq (hl : Loaded r l c) (hl' : Loaded r' l' c') (hconfig : r'.config = r.config)
    (hfound : ∀ p, (found r l' p).map Profile.shown = (found r l p).map Profile.shown)
    (hnotes : l'.foldl (fun w row => w.enter row.1 row.2) Notes.blank =
      l.foldl (fun w row => w.enter row.1 row.2) .blank) (fs : List Filter) :
    ∃ listing, c.listing r fs = .ok listing ∧ c'.listing r' fs = .ok listing := by
  have halike : Alike r c r' c' := by
    refine ⟨congrArg Config.separators hconfig, fun p => ?_, ?_⟩
    · rw [hl.view_eq, hl'.view_eq, found_congr hconfig, hfound]
    · rw [hl.notes_eq, hl'.notes_eq, hnotes]
  obtain ⟨listing, hlisting⟩ := hl.listing_ok fs
  refine ⟨listing, hlisting, ?_⟩
  rw [halike.listing_eq hl.lockstep hl'.lockstep hl.aliasesHeld hl'.aliasesHeld, hlisting]

end Loaded

/-- A manifest is accepted into a new registry exactly when it has its shape, its entries can be read,
and it describes the methods that it refers to. -/
theorem fresh_succeeds_iff {s : Session} (hs : s.Reachable) {config : Config}
    (hclean : ∀ part, ∀ entry ∈ entriesIn data part,
      Clean (s.catalog.openRegistry config).1 part entry) :
    (load (s.catalog.openRegistry config).1 data).Succeeds (s.catalog.openRegistry config).2 ↔
      Shaped data ∧ (∀ part, ∀ entry ∈ entriesIn data part, Legible part entry) ∧
        ∀ part, ∀ entry ∈ entriesIn data part, ∀ p ∈ references part entry,
          ∃ entry' ∈ entriesIn data .methods,
            methodPath? (s.catalog.openRegistry config).1 entry' = some p :=
  (Loaded.fresh hs config).succeeds_iff hclean

end DocCatalog.Manifest
