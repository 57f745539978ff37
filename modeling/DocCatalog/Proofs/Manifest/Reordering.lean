/-
**The order of the entries does not show.**

If every namespace has one entry and every method has one entry, then the entries may come in any
order: namespaces are made earlier or later, methods are registered in another order, and all of it
is shown alike in the end.  Attributes and aliases are written down in the order in which they come,
so their sections are left as they are.

Main definitions:

* `Manifest.Reordered`: the same manifest but for the order of its namespaces and of its methods.

Main results:

* `Manifest.Reordered.perm`: sections that are reordered have the same entries;
* `Manifest.found_reordered`: what is found is told by the entries in any order;
* `Manifest.load_reordered`: **a manifest that is reordered is accepted and shown alike**.
-/

import DocCatalog.Proofs.Manifest.Fresh
import DocCatalog.Proofs.Manifest.Sections

set_option autoImplicit false

namespace DocCatalog.Manifest

open Catalog

variable {r : Registry} {fields fields' : Fields} {data data' : Value} {part : Part}
  {entries entries' : List Fields}

/-! ### Reordered manifests -/

/-- A section that is the same, or lists its namespaces or its methods in another order. -/
def ReorderedField (field field' : String × Value) : Prop :=
  field.1 = field'.1 ∧ (field.2 = field'.2 ∨
    (field.1 = Part.namespaces.key ∨ field.1 = Part.methods.key) ∧
      ∃ items items', field.2 = .list items ∧ field'.2 = .list items' ∧ items.Perm items')

/-- A manifest that lists its namespaces and its methods in another order, and is the same apart from
that. -/
inductive Reordered : Value → Value → Prop
  | intro {fields fields' : Fields} (h : List.Forall₂ ReorderedField fields fields') :
      Reordered (.dict fields) (.dict fields')

/-- The sections have the same keys, so none is unknown. -/
theorem sections_of_reordered (h : List.Forall₂ ReorderedField fields fields')
    (hsections : sections (.dict fields) = .ok fields) : sections (.dict fields') = .ok fields' := by
  have hkeys : fields'.map Prod.fst = fields.map Prod.fst := by
    clear hsections
    induction h with
    | nil => rfl
    | cons hfield _ ih => rw [List.map_cons, List.map_cons, hfield.1, ih]
  simp only [sections, hkeys] at hsections ⊢
  split at hsections
  · next hnone => rw [if_pos hnone]
  · cases hsections

/-- Items that are mappings in one order are so in any other. -/
theorem exists_map_of_perm_map {items : List Value} (h : (entries.map Value.dict).Perm items) :
    ∃ entries', entries.Perm entries' ∧ items = entries'.map .dict := by
  refine ⟨items.filterMap entryOf?, ?_, ?_⟩
  · have hread := h.filterMap entryOf?
    rwa [List.filterMap_map, show entryOf? ∘ Value.dict = some from rfl, List.filterMap_some] at hread
  · have hdict : ∀ item ∈ items, ∃ entry, item = .dict entry := by
      intro item hitem
      obtain ⟨entry, -, he⟩ := List.mem_map.1 (h.mem_iff.2 hitem)
      exact ⟨entry, he.symm⟩
    clear h
    induction items with
    | nil => rfl
    | cons item items ih =>
        obtain ⟨entry, rfl⟩ := hdict item (by simp)
        rw [List.filterMap_cons, show entryOf? (.dict entry) = some entry from rfl, List.map_cons,
          ← ih fun item hitem => hdict item (by simp [hitem])]

theorem field?_of_reordered (h : List.Forall₂ ReorderedField fields fields') (key : String) :
    (Value.field? fields key = none ∧ Value.field? fields' key = none) ∨
      ∃ v v', Value.field? fields key = some v ∧ Value.field? fields' key = some v' ∧
        ReorderedField (key, v) (key, v') := by
  induction h with
  | nil => exact .inl ⟨rfl, rfl⟩
  | @cons field field' fields fields' hfield _ ih =>
      by_cases hkey : field.1 = key
      · have hkey' : field'.1 = key := hfield.1.symm.trans hkey
        refine .inr ⟨field.2, field'.2, by simp [Value.field?, hkey], by simp [Value.field?, hkey'],
          rfl, ?_⟩
        rw [← hkey]
        exact hfield.2
      · have hkey' : field'.1 ≠ key := fun he => hkey (hfield.1.trans he)
        simpa [Value.field?, List.find?_cons, hkey, hkey'] using ih

/-- The entries of a section that may be reordered are the same in another order, and those of all
others are the same. -/
theorem entriesOf_of_reordered (h : List.Forall₂ ReorderedField fields fields')
    (hread : entriesOf fields part = .ok entries) : ∃ entries',
      entriesOf fields' part = .ok entries' ∧ entries.Perm entries' ∧
        (part ≠ .namespaces → part ≠ .methods → entries' = entries) := by
  rcases field?_of_reordered h part.key with ⟨hnone, hnone'⟩ | ⟨v, v', hv, hv', -, hsame | hother⟩
  · rcases entriesOf_eq_ok_iff.1 hread with ⟨-, rfl⟩ | hsome
    · exact ⟨[], entriesOf_eq_ok_iff.2 (.inl ⟨hnone', rfl⟩), .refl _, fun _ _ => rfl⟩
    · rw [hnone] at hsome
      cases hsome
  · have hlist : Value.field? fields' part.key = Value.field? fields part.key := by
      rw [hv, hv']
      exact congrArg some hsame.symm
    refine ⟨entries, ?_, .refl _, fun _ _ => rfl⟩
    rw [entriesOf_eq_ok_iff, hlist]
    exact entriesOf_eq_ok_iff.1 hread
  · obtain ⟨hkey, items, items', rfl, rfl, hperm⟩ := hother
    have hitems : items = entries.map .dict := by
      rcases entriesOf_eq_ok_iff.1 hread with ⟨hnone, -⟩ | hsome
      · rw [hv] at hnone
        cases hnone
      · rw [hv] at hsome
        exact Value.list.inj (Option.some.inj hsome)
    obtain ⟨entries', hentries, rfl⟩ := exists_map_of_perm_map (hitems ▸ hperm)
    refine ⟨entries', entriesOf_eq_ok_iff.2 (.inr hv'), hentries, fun hspaces hmethods => ?_⟩
    rcases hkey with hkey | hkey
    · exact absurd (part_of_key hkey) hspaces
    · exact absurd (part_of_key hkey) hmethods

/-- What is said of sections that are reordered. -/
structure Reordered.Kept (data data' : Value) : Prop where
  shaped : Shaped data'
  perm : ∀ part, (entriesIn data part).Perm (entriesIn data' part)
  eq : ∀ part, part ≠ .namespaces → part ≠ .methods → entriesIn data' part = entriesIn data part

/-- Manifests that are reordered have the same entries in each section, and in the same order in those
of attributes and aliases. -/
theorem Reordered.kept (h : Reordered data data') (hshaped : Shaped data) :
    Reordered.Kept data data' := by
  obtain @⟨listed, fields', h⟩ := h
  obtain ⟨fields, hsections, hread⟩ := hshaped
  obtain rfl : fields = listed := eq_of_sections hsections
  have hsections' := sections_of_reordered h hsections
  have hsame : ∀ part, ∃ entries', entriesOf fields' part = .ok entries' ∧
      (entriesIn (.dict fields) part).Perm entries' ∧
      (part ≠ .namespaces → part ≠ .methods → entries' = entriesIn (.dict fields) part) := by
    intro part
    obtain ⟨entries, hentries⟩ := hread part
    obtain ⟨entries', hentries', hperm, heq⟩ := entriesOf_of_reordered h hentries
    rw [← entriesIn_of_ok hsections hentries] at hperm heq
    exact ⟨entries', hentries', hperm, heq⟩
  constructor
  · exact ⟨_, hsections', fun part => ⟨_, (hsame part).choose_spec.1⟩⟩
  · intro part
    obtain ⟨entries', hentries', hperm, -⟩ := hsame part
    rwa [entriesIn_of_ok hsections' hentries']
  · intro part hspaces hmethods
    obtain ⟨entries', hentries', -, heq⟩ := hsame part
    rw [entriesIn_of_ok hsections' hentries', heq hspaces hmethods]

/-! ### What is found -/

/-- Of rows with keys of their own those with one key are the same in any order, as there is at most
one. -/
theorem filter_eq_of_perm {α β : Type} [DecidableEq β] {f : α → β} {l l' : List α} (h : l.Perm l')
    (hnodup : (l.map f).Nodup) (b : β) :
    l.filter (fun a => f a = b) = l'.filter fun a => f a = b := by
  have hperm := h.filter fun a => f a = b
  have hsub : ((l.filter fun a => f a = b).map f).Nodup :=
    (List.filter_sublist.map f).nodup hnodup
  cases hrows : l.filter fun a => f a = b with
  | nil =>
      rw [hrows] at hperm
      exact hperm.nil_eq
  | cons a rest =>
      cases rest with
      | nil =>
          rw [hrows] at hperm
          exact List.singleton_perm.1 hperm
      | cons a' rest =>
          have hkey : ∀ x ∈ l.filter fun a => f a = b, f x = b := fun x hx => by
            simpa using (List.mem_filter.1 hx).2
          rw [hrows] at hsub hkey
          have hne := (List.nodup_cons.1 hsub).1
          exact absurd (by simp [hkey a (by simp), hkey a' (by simp)]) hne

/-- What is said of a namespace does not depend on the order of the entries, if it has one entry. -/
theorem spaceProfile_of_perm (h : entries.Perm entries')
    (hnodup : (entries.map (spaceOf .namespaces)).Nodup) :
    spaceProfile entries' = spaceProfile entries := by
  funext p
  have hat : entriesAt entries' p = entriesAt entries p := (filter_eq_of_perm h hnodup p).symm
  rw [spaceProfile, spaceProfile, spaceDocstring, spaceDocstring, spaceFiles, spaceFiles, hat]

/-- The last entry about a method is the only one, if the method has one entry. -/
theorem lastAt_of_perm (h : entries.Perm entries') (hnodup : (entries.map methodKey?).Nodup)
    (hclean : ∀ entry ∈ entries, Clean r .methods entry) (p : String) :
    lastAt r entries' p = lastAt r entries p := by
  by_cases hsome : ∃ entry ∈ entries, methodPath? r entry = some p
  · obtain ⟨entry, he, hp⟩ := hsome
    have hclean' : ∀ entry ∈ entries', Clean r .methods entry := fun entry' he' =>
      hclean entry' (h.mem_iff.2 he')
    rw [lastAt_eq_lastLike hclean he hp, lastAt_eq_lastLike hclean' (h.mem_iff.1 he) hp, lastLike,
      lastLike, filter_eq_of_perm h hnodup]
  · rw [lastAt_eq_none fun entry he hp => hsome ⟨entry, he, hp⟩,
      lastAt_eq_none fun entry he hp => hsome ⟨entry, h.mem_iff.2 he, hp⟩]

/-- **What is found is told by the entries in any order**, if every namespace has one entry and every
method has one. -/
theorem found_reordered (h : Reordered.Kept data data')
    (hspaces : ((entriesIn data .namespaces).map (spaceOf .namespaces)).Nodup)
    (hmethods : ((entriesIn data .methods).map methodKey?).Nodup)
    (hclean : ∀ entry ∈ entriesIn data .methods, Clean r .methods entry) :
    found r (rows data') = found r (rows data) := by
  funext p
  have hpaths : p ∈ trails r (rows data') ↔ p ∈ trails r (rows data) := by
    simp only [mem_trails_rows, IsSpacePath, (h.perm _).mem_iff]
  simp only [found, told, hpaths, sectionOf_rows,
    spaceProfile_of_perm (h.perm .namespaces) hspaces, lastAt_of_perm (h.perm .methods) hmethods hclean]

/-- **A manifest that is accepted is accepted in any order of its namespaces and of its methods, and
shown alike**, if every namespace has one entry and every method has one. -/
theorem load_reordered {s s' : Session} (hs : s.Reachable) (hs' : s'.Reachable) (config : Config)
    {data data' : Value} {c : Catalog} (hdata : Reordered data data')
    (hclean : ∀ part, ∀ entry ∈ entriesIn data part,
      Clean (s.catalog.openRegistry config).1 part entry)
    (hspaces : ((entriesIn data .namespaces).map (spaceOf .namespaces)).Nodup)
    (hmethods : ((entriesIn data .methods).map methodKey?).Nodup)
    (hok : load (s.catalog.openRegistry config).1 data (s.catalog.openRegistry config).2 =
      (.ok (), c)) :
    ∃ c', load (s'.catalog.openRegistry config).1 data' (s'.catalog.openRegistry config).2 =
        (.ok (), c') ∧
      ∀ fs, ∃ listing, c.listing (s.catalog.openRegistry config).1 fs = .ok listing ∧
        c'.listing (s'.catalog.openRegistry config).1 fs = .ok listing := by
  obtain ⟨hshaped, hlegible, hreferred⟩ := (fresh_succeeds_iff hs hclean).1 ⟨_, c, hok⟩
  have hkept := hdata.kept hshaped
  have hmem : ∀ {part entry}, entry ∈ entriesIn data' part ↔ entry ∈ entriesIn data part :=
    fun {part} {_} => (hkept.perm part).mem_iff.symm
  have hclean' : ∀ part, ∀ entry ∈ entriesIn data' part,
      Clean (s'.catalog.openRegistry config).1 part entry := fun part entry he =>
    (hclean part entry (hmem.1 he)).congr (r := (s.catalog.openRegistry config).1) rfl
  -- the entries can be read and the methods are described, in whatever order
  obtain ⟨_, c', hok'⟩ := (fresh_succeeds_iff hs' hclean').2 ⟨hkept.shaped,
    fun part entry he => hlegible part entry (hmem.1 he),
    fun part entry he p hp => by
      obtain ⟨m, hm, hpath⟩ := hreferred part entry (hmem.1 he) p hp
      exact ⟨m, hmem.2 hm, (methodPath?_congr rfl) ▸ hpath⟩⟩
  refine ⟨c', hok', (Loaded.of_load hs hclean hok).listing_eq (Loaded.of_load hs' hclean' hok') rfl
    (fun p => ?_) ?_⟩
  · rw [found_reordered hkept hspaces hmethods (hclean .methods)]
  · rw [foldl_enter_rows, foldl_enter_rows, referring, referring,
      hkept.eq .attributes (by simp) (by simp), hkept.eq .aliases (by simp) (by simp)]

/-- Namespaces and methods in the reverse order are registered in another order and shown alike, with
an attribute that a method reads and an alias of it. -/
theorem load_reordered_reversed :
    let cart : Value := .dict [("path", .text "Shop::Cart"), ("docstring", .text "A cart.")]
    let shop : Value := .dict [("path", .text "Shop"), ("file", .text "shop.py"), ("line", .int 1)]
    let total : Value := .dict [("namespace", .text "Shop::Cart"), ("name", .text "total")]
    let visit : Value := .dict [("namespace", .text "Shop::Store"), ("name", .text "visit"),
      ("scope", .text "class")]
    let attributes : Value := .list [.dict [("namespace", .text "Shop::Cart"),
      ("name", .text "total"), ("read", .text "Shop::Cart#total")]]
    let aliases : Value := .list [.dict [("namespace", .text "Shop::Cart"),
      ("method", .text "Shop::Cart#total"), ("aliases", .text "sum")]]
    let data : Value := .dict [("namespaces", .list [cart, shop]),
      ("methods", .list [total, visit]), ("attributes", attributes), ("aliases", aliases)]
    let data' : Value := .dict [("namespaces", .list [shop, cart]),
      ("methods", .list [visit, total]), ("attributes", attributes), ("aliases", aliases)]
    let c₀ := (({} : Catalog).openRegistry {}).2
    let r := (({} : Catalog).openRegistry {}).1
    let c := (load r data c₀).2
    c.paths r = ["Shop", "Shop::Cart", "Shop::Cart#total", "Shop::Store", "Shop::Store.visit"] ∧
      (load r data' c₀).2.paths r =
        ["Shop", "Shop::Cart", "Shop::Store", "Shop::Store.visit", "Shop::Cart#total"] ∧
      ∃ c', load r data' c₀ = (.ok (), c') ∧
        ∀ fs, ∃ listing, c.listing r fs = .ok listing ∧ c'.listing r fs = .ok listing := by
  intro cart shop total visit attributes aliases data data' c₀ r c
  have hok : (load r data c₀).1.toBool = true := by decide +kernel
  obtain ⟨_, hrun⟩ := Action.exists_eq_ok hok
  have hclean : ∀ part, ∀ entry ∈ entriesIn data part, Clean r part entry := by
    intro part
    cases part <;> decide +kernel
  have hswap : ∀ a b : Value, List.Perm [a, b] [b, a] := fun a b => .swap b a []
  have hdata : Reordered data data' := .intro <|
    .cons ⟨rfl, .inr ⟨.inl rfl, _, _, rfl, rfl, hswap cart shop⟩⟩ <|
    .cons ⟨rfl, .inr ⟨.inr rfl, _, _, rfl, rfl, hswap total visit⟩⟩ <|
    .cons ⟨rfl, .inl rfl⟩ <| .cons ⟨rfl, .inl rfl⟩ .nil
  have hnew : ({} : Session).Reachable := .refl
  exact ⟨by decide +kernel, by decide +kernel, load_reordered hnew hnew {} hdata hclean
    (by decide +kernel) (by decide +kernel) hrun⟩

end DocCatalog.Manifest
