/-
**The meaning of a manifest.**

What is found in a new registry after a manifest is told by the manifest alone: a namespace at every
path on the way to one that is mentioned, with what the entries of its own path say together, and a
method at the path of every entry of a method, as the last entry of that path says and nothing else.

Main definitions:

* `Manifest.IsSpacePath`: the paths of namespaces;
* `Manifest.spaceDocstring`, `Manifest.spaceFiles`: what is said of a namespace;
* `Manifest.methodKey?`, `Manifest.lastLike`: the last entry that is about the same method;
* `Manifest.found`: what is found at each path;
* `Manifest.Meant`: what is found in a registry is what a manifest means.

Main results:

* `Manifest.outcome_eq_found`: entry by entry a manifest leads to what it means;
* `Manifest.load_meaning`: **an accepted manifest in a new registry has its meaning**.
-/

import DocCatalog.Proofs.Manifest.Entries
import DocCatalog.Proofs.Registry.Discipline

set_option autoImplicit false

namespace DocCatalog.Manifest

open Catalog

variable {r : Registry} {entry : Fields} {part : Part} {path p : String}
  {l : List (Part × Fields)}

/-! ### What is meant -/

/-- The paths of the namespaces on the way to one that a manifest mentions in any section. -/
def IsSpacePath (r : Registry) (data : Value) (p : String) : Prop :=
  ∃ part, ∃ entry ∈ entriesIn data part, ∃ names, names ≠ [] ∧
    names <+: spaceNames r (spaceOf part entry) ∧ p = r.separators.spacePath names

/-- The entries of the section of namespaces that are about a path. -/
def entriesAt (entries : List Fields) (path : String) : List Fields :=
  entries.filter fun entry => spaceOf .namespaces entry = path

/-- The documentation of a namespace: that of the last entry which gives one. -/
def spaceDocstring (entries : List Fields) (path : String) : Value :=
  ((entriesAt entries path).filterMap docstringOf?).getLast?.getD (.text "")

/-- The places of a namespace in the order of the entries, a place that comes again left out. -/
def spaceFiles (entries : List Fields) (path : String) : List (Value × Value) :=
  ((entriesAt entries path).filterMap placeOf?).eraseDups

/-- The method that an entry is about: its namespace, its name and its scope. -/
def methodKey? (entry : Fields) : Option (String × String × Scope) :=
  (scopeOf? entry).map fun s => (spaceOf .methods entry, nameOf entry, s)

/-- The last of some entries that is about the same method as another. -/
def lastLike (entries : List Fields) (entry : Fields) : Option Fields :=
  (entries.filter fun other => methodKey? other = methodKey? entry).getLast?

/-! ### What is found -/

/-- The entries of one section, in their order. -/
def sectionOf (part : Part) (l : List (Part × Fields)) : List Fields :=
  l.filterMap fun row => if row.1 = part then some row.2 else none

/-- The paths of the namespaces on the way that some entries mention. -/
def trails (r : Registry) (l : List (Part × Fields)) : List String :=
  l.flatMap fun row => trailOf r row.1 row.2

/-- The last of some entries that is about a path of a method. -/
def lastAt (r : Registry) (entries : List Fields) (path : String) : Option Fields :=
  (entries.filter fun entry => methodPath? r entry = some path).getLast?

/-- A namespace as some entries say. -/
def spaceProfile (entries : List Fields) (path : String) : Profile where
  kind := .space
  docstring := spaceDocstring entries path
  files := spaceFiles entries path

/-- Namespaces at some paths as the entries of namespaces say, and elsewhere the methods that the
entries of methods are about. -/
def told (r : Registry) (paths : List String) (spaces methods : List Fields) : View := fun p =>
  if p ∈ paths then some (spaceProfile spaces p) else (lastAt r methods p).bind (methodProfile? r)

/-- What is found at each path after some entries. -/
def found (r : Registry) (l : List (Part × Fields)) : View :=
  told r (trails r l) (sectionOf .namespaces l) (sectionOf .methods l)

/-! ### Paths of namespaces and of methods -/

theorem mem_trailOf : p ∈ trailOf r part entry ↔ ∃ names, names ≠ [] ∧
    names <+: spaceNames r (spaceOf part entry) ∧ p = r.separators.spacePath names :=
  r.separators.mem_trail (spaceNames r (spaceOf part entry)) []

theorem spacePath_spaceOf (h : Clean r part entry) :
    r.separators.spacePath (spaceNames r (spaceOf part entry)) = spaceOf part entry :=
  spacePath_spaceNames fun name hname => (h.space name hname).1

theorem mem_trailOf_self (h : Clean r part entry) (hne : spaceOf part entry ≠ "") :
    spaceOf part entry ∈ trailOf r part entry := by
  refine mem_trailOf.2 ⟨_, ?_, List.prefix_refl _, (spacePath_spaceOf h).symm⟩
  intro hnil
  apply hne
  rw [← spacePath_spaceOf h, hnil]
  rfl

theorem ne_empty_of_mem_trailOf (h : Clean r part entry) (hp : p ∈ trailOf r part entry) :
    p ≠ "" := by
  obtain ⟨names, hne, hpre, rfl⟩ := mem_trailOf.1 hp
  exact Separators.spacePath_ne_empty hne fun name hname => h.space name (hpre.subset hname)

theorem methodPath?_eq_some (h : Clean r .methods entry) (hp : methodPath? r entry = some path) :
    ∃ s, scopeOf? entry = some s ∧ path = r.separators.render
      (spaceNames r (spaceOf .methods entry)) (nameOf entry) (some s) := by
  obtain ⟨s, hs, rfl⟩ := Option.map_eq_some_iff.1 hp
  refine ⟨s, hs, ?_⟩
  rw [Separators.render, spacePath_spaceOf h]

/-- A method never has the path of a namespace. -/
theorem methodPath?_not_mem_trailOf {entry' : Fields} (h : Clean r .methods entry)
    (h' : Clean r part entry') (hp : methodPath? r entry = some path) :
    path ∉ trailOf r part entry' := by
  intro hmem
  obtain ⟨names, hne, hpre, htrail⟩ := mem_trailOf.1 hmem
  obtain ⟨s, -, hmethod⟩ := methodPath?_eq_some h hp
  have hplain : ∀ name ∈ names, r.separators.Plain name :=
    fun name hname => h'.space name (hpre.subset hname)
  rcases List.eq_nil_or_concat names with rfl | ⟨owners, name, rfl⟩
  · exact hne rfl
  · rw [List.concat_eq_append] at htrail hplain
    rw [htrail, ← Separators.render_none] at hmethod
    obtain ⟨-, -, hscope⟩ := Separators.render_parts (s := r.separators) r.config.distinct
      (fun o ho => hplain o (by simp [ho])) h.space (hplain name (by simp)) (h.name rfl) hmethod
    cases hscope

theorem methodPath?_ne_empty (h : Clean r .methods entry) (hp : methodPath? r entry = some path) :
    path ≠ "" := by
  obtain ⟨s, -, rfl⟩ := methodPath?_eq_some h hp
  have hname : nameOf entry ≠ "" := (h.name rfl).1
  rw [Separators.render_eq]
  simp [hname]

/-- Two entries give one path exactly when they are about the same method. -/
theorem methodPath?_eq_iff {entry' : Fields} (h : Clean r .methods entry)
    (h' : Clean r .methods entry') (hp : methodPath? r entry = some path) :
    methodPath? r entry' = some path ↔ methodKey? entry' = methodKey? entry := by
  obtain ⟨s, hs, hpath⟩ := methodPath?_eq_some h hp
  constructor
  · intro hp'
    obtain ⟨s', hs', hpath'⟩ := methodPath?_eq_some h' hp'
    obtain ⟨hspace, hname, hscope⟩ := Separators.render_parts (s := r.separators)
      r.config.distinct h'.space h.space (h'.name rfl) (h.name rfl) (hpath'.symm.trans hpath)
    rw [spacePath_spaceOf h', spacePath_spaceOf h] at hspace
    rw [methodKey?, methodKey?, hs, hs', hspace, hname, Option.some.inj hscope]
  · intro hk
    rw [← hp, methodPath?, methodPath?]
    unfold methodKey? at hk
    cases hs' : scopeOf? entry' with
    | none => simp [hs, hs'] at hk
    | some s' =>
        simp only [hs, hs', Option.map_some, Option.some.injEq, Prod.mk.injEq] at hk ⊢
        rw [hk.1, hk.2.1, hk.2.2]

theorem lastAt_eq_none {entries : List Fields}
    (h : ∀ entry ∈ entries, methodPath? r entry ≠ some p) : lastAt r entries p = none := by
  simpa [lastAt] using h

theorem lastAt_concat (r : Registry) (entries : List Fields) (entry : Fields) (p : String) :
    lastAt r (entries ++ [entry]) p =
      if methodPath? r entry = some p then some entry else lastAt r entries p := by
  by_cases h : methodPath? r entry = some p <;> simp [lastAt, List.filter_append, h]

/-! ### Places -/

theorem agrees_iff_of_isLine {a b : Value} (ha : isLine a = true) (hb : isLine b = true) :
    a.agrees b = true ↔ a = b := by
  cases a <;> cases b <;> simp_all [isLine, Value.agrees, Value.canonical]

theorem agrees_iff_of_isPlace {a b : Value × Value} (ha : IsPlace a) (hb : IsPlace b) :
    (a.1.agrees b.1 && a.2.agrees b.2) = true ↔ a = b := by
  obtain ⟨f, hf⟩ := ha.1
  obtain ⟨g, hg⟩ := hb.1
  rw [Bool.and_eq_true, agrees_iff_of_isLine ha.2 hb.2, Prod.ext_iff, hf, hg]
  simp [Value.agrees]

/-- A place that comes after others is left out exactly when it is among them. -/
theorem addPlace_eraseDups {places : List (Value × Value)} {place : Value × Value}
    (h : ∀ q ∈ places, IsPlace q) (hplace : IsPlace place) :
    addPlace places.eraseDups place = (places ++ [place]).eraseDups := by
  have hany : (places.eraseDups.any fun q => q.1.agrees place.1 && q.2.agrees place.2) = true ↔
      place ∈ places := by
    rw [List.any_eq_true]
    constructor
    · rintro ⟨q, hq, hsame⟩
      have hq := List.mem_eraseDups.1 hq
      exact (agrees_iff_of_isPlace (h q hq) hplace).1 hsame ▸ hq
    · exact fun hmem => ⟨place, List.mem_eraseDups.2 hmem,
        (agrees_iff_of_isPlace hplace hplace).2 rfl⟩
  rw [addPlace, List.eraseDups_append]
  by_cases hmem : place ∈ places
  · rw [if_pos (hany.2 hmem)]
    simp [List.removeAll, hmem]
  · rw [if_neg (mt hany.1 hmem)]
    simp [List.removeAll, hmem, List.eraseDups_cons]

/-! ### Entry by entry -/

variable {paths : List String} {spaces methods : List Fields}

/-- The places of the entries of namespaces are places as they are accepted. -/
def Located (spaces : List Fields) : Prop :=
  ∀ entry ∈ spaces, ∀ place, placeOf? entry = some place → IsPlace place

/-- Nothing is said of a namespace that no entry of namespaces is about. -/
theorem spaceProfile_of_not_mentioned (h : ∀ entry ∈ spaces, spaceOf .namespaces entry ≠ p) :
    spaceProfile spaces p = { kind := .space } := by
  have hnone : entriesAt spaces p = [] := by simpa [entriesAt] using h
  simp [spaceProfile, spaceDocstring, spaceFiles, hnone]

/-- One more entry of namespaces says more of the namespace at its path, and of no other. -/
theorem spaceProfile_concat (h : Located (spaces ++ [entry])) (p : String) :
    spaceProfile (spaces ++ [entry]) p = if spaceOf .namespaces entry = p
      then (spaceProfile spaces p).annotate entry else spaceProfile spaces p := by
  by_cases hp : spaceOf .namespaces entry = p
  · have hat : entriesAt (spaces ++ [entry]) p = entriesAt spaces p ++ [entry] := by
      simp [entriesAt, List.filter_append, hp]
    have hplaces : ∀ q ∈ (entriesAt spaces p).filterMap placeOf?, IsPlace q := by
      intro q hq
      obtain ⟨e, he, hq⟩ := List.mem_filterMap.1 hq
      exact h e (by simp [(List.mem_filter.1 he).1]) q hq
    rw [if_pos hp, spaceProfile, spaceProfile, Profile.annotate, spaceDocstring, spaceDocstring,
      spaceFiles, spaceFiles, hat, List.filterMap_append, List.filterMap_append]
    congr 1
    · cases hd : docstringOf? entry <;> simp [hd]
    · cases hf : placeOf? entry with
      | none => simp [hf]
      | some place =>
          have hplace := h entry (by simp) place hf
          simpa [hf] using (addPlace_eraseDups hplaces hplace).symm
  · have hat : entriesAt (spaces ++ [entry]) p = entriesAt spaces p := by
      simp [entriesAt, List.filter_append, hp]
    rw [if_neg hp, spaceProfile, spaceProfile, spaceDocstring, spaceFiles, hat]
    rfl

/-- Namespaces on the way are told of where they were not before: no method was there, and no entry
of namespaces was about them. -/
theorem reach_told {paths' : List String} (hempty : "" ∉ paths')
    (hspaces : ∀ entry ∈ spaces, spaceOf .namespaces entry = "" ∨ spaceOf .namespaces entry ∈ paths)
    (hmethods : ∀ entry ∈ methods, ∀ path, methodPath? r entry = some path → path ∉ paths') :
    (told r paths spaces methods).reach paths' = told r (paths ++ paths') spaces methods := by
  funext p
  by_cases h : p ∈ paths <;> by_cases h' : p ∈ paths' <;>
    simp only [View.reach, told, h, h', List.mem_append, if_true, if_false, or_true, or_false,
      Option.getD_some]
  have hnone : lastAt r methods p = none :=
    lastAt_eq_none fun entry he hp => hmethods entry he p hp h'
  rw [hnone, spaceProfile_of_not_mentioned]
  · rfl
  · rintro entry he rfl
    rcases hspaces entry he with hroot | hmem
    · exact hempty (hroot ▸ h')
    · exact h hmem

/-- One more entry of namespaces, whose path is told of or is the root's. -/
theorem amend_told (hlocated : Located (spaces ++ [entry]))
    (hmem : spaceOf .namespaces entry ∈ paths ∨
      ∀ entry' ∈ methods, methodPath? r entry' ≠ some (spaceOf .namespaces entry)) :
    (told r paths spaces methods).amend (spaceOf .namespaces entry) (Profile.annotate · entry) =
      told r paths (spaces ++ [entry]) methods := by
  funext p
  rw [View.amend, told, told, spaceProfile_concat hlocated]
  by_cases hp : spaceOf .namespaces entry = p
  · subst hp
    by_cases h : spaceOf .namespaces entry ∈ paths
    · simp [h]
    · have hnone := lastAt_eq_none (hmem.resolve_left h)
      simp [h, hnone]
  · simp [hp]

/-- One more entry of methods takes the place of all before that are about the same path. -/
theorem put_told {f : Profile} (hpath : methodPath? r entry = some path) (hnot : path ∉ paths)
    (hf : methodProfile? r entry = some f) :
    (told r paths spaces methods).put path f = told r paths spaces (methods ++ [entry]) := by
  funext p
  rw [View.put, told, told, lastAt_concat, hpath]
  by_cases hp : path = p
  · subst hp
    simp [hnot, hf]
  · simp [hp]

@[simp] theorem sectionOf_concat (part part' : Part) (l : List (Part × Fields)) (entry : Fields) :
    sectionOf part (l ++ [(part', entry)]) =
      if part' = part then sectionOf part l ++ [entry] else sectionOf part l := by
  by_cases h : part' = part <;> simp [sectionOf, List.filterMap_append, h]

theorem mem_sectionOf : entry ∈ sectionOf part l ↔ (part, entry) ∈ l := by
  simp [sectionOf]

theorem trails_concat (r : Registry) (l : List (Part × Fields)) (part : Part) (entry : Fields) :
    trails r (l ++ [(part, entry)]) = trails r l ++ trailOf r part entry := by
  simp [trails]

theorem mem_trails_of_mem_trailOf (h : (part, entry) ∈ l) (hp : p ∈ trailOf r part entry) :
    p ∈ trails r l :=
  List.mem_flatMap.2 ⟨_, h, hp⟩

/-- **What is found after one more entry is what was found before, with what the entry does.** -/
theorem found_concat (hclean : ∀ row ∈ l ++ [(part, entry)], Clean r row.1 row.2)
    (haccepted : ∀ row ∈ l ++ [(part, entry)], Accepted r row.1 row.2) :
    found r (l ++ [(part, entry)]) = step r (found r l) part entry := by
  have hentry : Clean r part entry := hclean (part, entry) (by simp)
  have hmethods : ∀ entry' ∈ sectionOf .methods l, Clean r .methods entry' := fun entry' he =>
    hclean (.methods, entry') (by simp [mem_sectionOf.1 he])
  have hreach : (found r l).reach (trailOf r part entry) = told r
      (trails r (l ++ [(part, entry)])) (sectionOf .namespaces l) (sectionOf .methods l) := by
    rw [trails_concat]
    refine reach_told (fun h => ne_empty_of_mem_trailOf hentry h rfl) ?_ ?_
    · intro entry' he
      have hrow := mem_sectionOf.1 he
      by_cases hroot : spaceOf .namespaces entry' = ""
      · exact .inl hroot
      · have hself := mem_trailOf_self (hclean (.namespaces, entry') (by simp [hrow])) hroot
        exact .inr (mem_trails_of_mem_trailOf hrow hself)
    · exact fun entry' he path hp => methodPath?_not_mem_trailOf (hmethods entry' he) hentry hp
  rw [step, hreach, found, sectionOf_concat, sectionOf_concat]
  cases part with
  | namespaces =>
      refine (amend_told ?_ ?_).symm
      · intro entry' he place hplace
        have hrow : (.namespaces, entry') ∈ l ++ [(.namespaces, entry)] := by
          simpa [mem_sectionOf] using he
        exact (haccepted _ hrow).place rfl place hplace
      · by_cases hroot : spaceOf .namespaces entry = ""
        · exact .inr fun entry' he hp => methodPath?_ne_empty (hmethods entry' he) hp hroot
        · have hself := mem_trailOf_self hentry hroot
          exact .inl (mem_trails_of_mem_trailOf (by simp) hself)
  | methods =>
      obtain ⟨path, f, hpath, hf⟩ := (haccepted (.methods, entry) (by simp)).method rfl
      simp only [arrive, hpath, hf]
      refine (put_told hpath (fun hmem => ?_) hf).symm
      obtain ⟨row, hrow, hp⟩ := List.mem_flatMap.1 hmem
      exact methodPath?_not_mem_trailOf hentry (hclean row hrow) hpath hp
  | attributes => rfl
  | aliases => rfl

/-- What the entries do, one after the other, is what they mean together. -/
theorem foldl_step_eq_found (hclean : ∀ row ∈ l, Clean r row.1 row.2)
    (haccepted : ∀ row ∈ l, Accepted r row.1 row.2) :
    l.foldl (fun v row => step r v row.1 row.2) (fun _ => none) = found r l := by
  induction l using List.reverseRecOn with
  | nil => rfl
  | append_singleton l row ih =>
      rw [List.foldl_append, ih (fun row h => hclean row (by simp [h]))
        fun row h => haccepted row (by simp [h])]
      exact (found_concat hclean haccepted).symm

theorem sectionOf_rows (data : Value) (part : Part) :
    sectionOf part (rows data) = entriesIn data part := by
  simp only [rows, sectionOf, Part.all]
  cases part <;> simp [List.filterMap_map]

theorem mem_rows {data : Value} {row : Part × Fields} :
    row ∈ rows data ↔ row.2 ∈ entriesIn data row.1 := by
  rw [← sectionOf_rows, mem_sectionOf]

/-- **Entry by entry an accepted manifest with plain names leads to what it means.** -/
theorem outcome_eq_found {data : Value}
    (hclean : ∀ part, ∀ entry ∈ entriesIn data part, Clean r part entry)
    (haccepted : ∀ part, ∀ entry ∈ entriesIn data part, Accepted r part entry) :
    outcome r (fun _ => none) data = found r (rows data) :=
  foldl_step_eq_found (fun row h => hclean row.1 row.2 (mem_rows.1 h))
    fun row h => haccepted row.1 row.2 (mem_rows.1 h)

theorem mem_trails_rows {data : Value} : p ∈ trails r (rows data) ↔ IsSpacePath r data p := by
  simp only [trails, List.mem_flatMap, mem_rows, mem_trailOf, IsSpacePath, Prod.exists]

/-! ### Whole manifests -/

/-- What is found in a registry is what a manifest means. -/
structure Meant (r : Registry) (data : Value) (c : Catalog) : Prop where
  /-- Something is found at the paths of namespaces and of methods, and nowhere else. -/
  paths : ∀ p, p ∈ c.paths r ↔ IsSpacePath r data p ∨
    ∃ entry ∈ entriesIn data .methods, methodPath? r entry = some p
  /-- At the path of a namespace a namespace is found, as the entries of this path say. -/
  spaces : ∀ p, IsSpacePath r data p → ∃ e, (c.entries r).get? p = some e ∧
    (c.entity e).kind = .space ∧
    (c.entity e).docstring = spaceDocstring (entriesIn data .namespaces) p ∧
    (c.entity e).files = spaceFiles (entriesIn data .namespaces) p
  /-- At the path of a method a method is found, as the last entry about it says. -/
  methods : ∀ entry ∈ entriesIn data .methods, ∃ path last fields e,
    methodPath? r entry = some path ∧ lastLike (entriesIn data .methods) entry = some last ∧
    methodFieldsOf? r last = some fields ∧ (c.entries r).get? path = some e ∧
    (c.entity e).kind = .method ∧ (c.entity e).method? = some fields ∧
    (c.entity e).docstring = (docstringOf? last).getD (.text "") ∧
    (c.entity e).files = (placeOf? last).toList

/-- The last entry at the path of a method is the last one about the method. -/
theorem lastAt_eq_lastLike {entries : List Fields}
    (hclean : ∀ entry ∈ entries, Clean r .methods entry) (hentry : entry ∈ entries)
    (hp : methodPath? r entry = some p) : lastAt r entries p = lastLike entries entry := by
  rw [lastAt, lastLike]
  refine congrArg List.getLast? (List.filter_congr fun other hother => ?_)
  simpa using methodPath?_eq_iff (hclean entry hentry) (hclean other hother) hp

theorem exists_lastAt {entries : List Fields} (hentry : entry ∈ entries)
    (hp : methodPath? r entry = some p) : ∃ last ∈ entries, lastAt r entries p = some last := by
  have hmem : entry ∈ entries.filter fun entry => methodPath? r entry = some p := by
    simp [hentry, hp]
  obtain ⟨last, hlast⟩ := Option.isSome_iff_exists.1
    (List.getLast?_isSome.2 (List.ne_nil_of_mem hmem))
  exact ⟨last, List.mem_of_mem_filter (List.mem_of_getLast? hlast), hlast⟩

theorem found_of_isSpacePath {data : Value} (hp : IsSpacePath r data p) :
    found r (rows data) p = some (spaceProfile (entriesIn data .namespaces) p) := by
  rw [found, told, if_pos (mem_trails_rows.2 hp), sectionOf_rows]

theorem found_of_not_isSpacePath {data : Value} (hp : ¬ IsSpacePath r data p) :
    found r (rows data) p = (lastAt r (entriesIn data .methods) p).bind (methodProfile? r) := by
  rw [found, told, if_neg (mt mem_trails_rows.1 hp), sectionOf_rows]

theorem not_isSpacePath_of_methodPath? {data : Value}
    (hclean : ∀ part, ∀ entry ∈ entriesIn data part, Clean r part entry)
    (hentry : Clean r .methods entry) (hp : methodPath? r entry = some p) :
    ¬ IsSpacePath r data p := by
  rintro ⟨part, entry', he, htrail⟩
  exact methodPath?_not_mem_trailOf hentry (hclean part entry' he) hp (mem_trailOf.2 htrail)

/-- At the path of a method the last entry about it tells what is found. -/
theorem found_of_method {data : Value}
    (hclean : ∀ part, ∀ entry ∈ entriesIn data part, Clean r part entry)
    (haccepted : ∀ part, ∀ entry ∈ entriesIn data part, Accepted r part entry)
    (he : entry ∈ entriesIn data .methods) : ∃ path last f, methodPath? r entry = some path ∧
      lastLike (entriesIn data .methods) entry = some last ∧ methodProfile? r last = some f ∧
      found r (rows data) path = some f := by
  obtain ⟨path, -, hpath, -⟩ := (haccepted .methods entry he).method rfl
  obtain ⟨last, hlast, hat⟩ := exists_lastAt he hpath
  obtain ⟨-, f, -, hf⟩ := (haccepted .methods last hlast).method rfl
  have hnot := not_isSpacePath_of_methodPath? hclean (hclean .methods entry he) hpath
  refine ⟨path, last, f, hpath, ?_, hf, ?_⟩
  · rw [← hat, lastAt_eq_lastLike (hclean .methods) he hpath]
  · rw [found_of_not_isSpacePath hnot, hat]
    exact hf

/-- Something is found at the paths of namespaces and of methods, and nowhere else. -/
theorem found_ne_none_iff {data : Value}
    (hclean : ∀ part, ∀ entry ∈ entriesIn data part, Clean r part entry)
    (haccepted : ∀ part, ∀ entry ∈ entriesIn data part, Accepted r part entry) :
    found r (rows data) p ≠ none ↔ IsSpacePath r data p ∨
      ∃ entry ∈ entriesIn data .methods, methodPath? r entry = some p := by
  constructor
  · intro hfound
    by_cases hp : IsSpacePath r data p
    · exact .inl hp
    · rw [found_of_not_isSpacePath hp] at hfound
      refine .inr (by_contra fun hno => hfound ?_)
      rw [lastAt_eq_none fun entry he hpath => hno ⟨entry, he, hpath⟩]
      rfl
  · rintro (hp | ⟨entry, he, hpath⟩)
    · simp [found_of_isSpacePath hp]
    · obtain ⟨path, last, f, hpath', -, -, hf⟩ := found_of_method hclean haccepted he
      obtain rfl := Option.some.inj (hpath.symm.trans hpath')
      simp [hf]

/-- A registry in which everything is found as the entries of a manifest together say has its
meaning. -/
theorem meant_of_view {data : Value} {c : Catalog} (hv : c.view r = found r (rows data))
    (hclean : ∀ part, ∀ entry ∈ entriesIn data part, Clean r part entry)
    (haccepted : ∀ part, ∀ entry ∈ entriesIn data part, Accepted r part entry) :
    Meant r data c := by
  constructor
  · intro p
    rw [mem_paths_iff_view, hv, found_ne_none_iff hclean haccepted]
  · intro p hp
    obtain ⟨e, he, hprofile⟩ := exists_of_view ((congrFun hv p).trans (found_of_isSpacePath hp))
    exact ⟨e, he, congrArg Profile.kind hprofile, congrArg Profile.docstring hprofile,
      congrArg Profile.files hprofile⟩
  · intro entry hentry
    obtain ⟨path, last, f, hpath, hlast, hf, hfound⟩ := found_of_method hclean haccepted hentry
    obtain ⟨e, he, hprofile⟩ := exists_of_view ((congrFun hv path).trans hfound)
    obtain ⟨fields, hfields, rfl⟩ := Option.map_eq_some_iff.1 hf
    exact ⟨path, last, fields, e, hpath, hlast, hfields, he, congrArg Profile.kind hprofile,
      congrArg Profile.method? hprofile, congrArg Profile.docstring hprofile,
      congrArg Profile.files hprofile⟩

/-- A manifest for which a registry is opened is loaded into it like into any other. -/
theorem loadFresh_eq_ok {r : Registry} {data : Value} {c c' : Catalog}
    (h : loadFresh data c = (.ok r, c')) :
    r = (c.openRegistry {}).1 ∧ load r data (c.openRegistry {}).2 = (.ok (), c') := by
  obtain ⟨fields, c₁, hread, h₁⟩ := Action.bind_eq_ok h
  obtain ⟨hfields, rfl⟩ := Action.lift_eq_ok hread
  obtain ⟨_, c₂, hset, h₂⟩ := Action.bind_eq_ok (Action.get_eq_ok h₁)
  cases hset
  obtain ⟨_, c₃, hparts, hend⟩ := Action.bind_eq_ok h₂
  cases hend
  refine ⟨rfl, ?_⟩
  have hsections : (liftM (sections data) : Action Fields) (c₁.openRegistry {}).2 =
      (.ok fields, (c₁.openRegistry {}).2) := by rw [hfields]; rfl
  exact (Action.bind_of_ok hsections).trans hparts

/-- **A manifest with plain names that is accepted into a new registry has its meaning there.** -/
theorem load_meaning {s : Session} (hs : s.Reachable) (config : Config) {data : Value} {c : Catalog}
    (hclean : ∀ part, ∀ entry ∈ entriesIn data part,
      Clean (s.catalog.openRegistry config).1 part entry)
    (hok : load (s.catalog.openRegistry config).1 data (s.catalog.openRegistry config).2 =
      (.ok (), c)) :
    Meant (s.catalog.openRegistry config).1 data c := by
  obtain ⟨hwf, hkeys, -⟩ := Session.Reachable.sound hs
  have hslots := (Session.Reachable.writes hs).slotsHold wellFormed_empty slotsHold_empty
  have hlock := lockstep_openRegistry hwf hkeys hslots config
  obtain ⟨haccepted, -, hview⟩ := load_ok hlock hclean hok
  have hfresh : (s.catalog.openRegistry config).2.view (s.catalog.openRegistry config).1 =
      fun _ => none := by
    funext p
    rw [view, entries_fresh, OrderedTable.get?_empty]
    rfl
  rw [hfresh, outcome_eq_found hclean haccepted] at hview
  exact meant_of_view hview hclean haccepted

/-- A method that is written twice is as the second entry says, and has nothing of the first. -/
theorem load_meaning_written_twice :
    let first : Value := .dict [("namespace", .text "Shop::Cart"), ("name", .text "total"),
      ("docstring", .text "The sum."), ("file", .text "cart.py"), ("line", .int 3)]
    let second : Value := .dict [("namespace", .text "Shop::Cart"), ("name", .text "total"),
      ("scope", .text ":Instance"), ("visibility", .text "private")]
    let data : Value := .dict [("methods", .list [first, second])]
    let r : Registry := ⟨0, {}⟩
    let c := (loadFresh data {}).2
    Meant r data c ∧ c.paths r = ["Shop", "Shop::Cart", "Shop::Cart#total"] ∧
      (c.entries r).get? "Shop::Cart#total" = some ⟨4⟩ ∧ (c.entity ⟨4⟩).files = [] := by
  intro first second data r c
  have hok : (loadFresh data {}).1.toBool = true := by decide +kernel
  obtain ⟨r', hrun⟩ := Action.exists_eq_ok hok
  obtain ⟨rfl, hload⟩ := loadFresh_eq_ok hrun
  have hclean : ∀ part, ∀ entry ∈ entriesIn data part,
      Clean (({} : Catalog).openRegistry {}).1 part entry := by
    intro part
    cases part <;> decide +kernel
  exact ⟨load_meaning (s := {}) .refl {} hclean hload, by decide +kernel, by decide +kernel,
    by decide +kernel⟩

end DocCatalog.Manifest
