/-
**Separators matter for the spelling only.**

A manifest is loaded into a new registry, and its respelling into one with other separators.  What
is found, what the namespaces have written down and what the paths of methods denote is told by
names and scopes; the separators come in when these are rendered, and where the names are plain the
rendering loses nothing.  So the two registries hold the same identities, each under its own
spelling, and say the same of each.

Main definitions:

* `Catalog.Counterparts`: what two registries hold under the two spellings of one identity;
* `Catalog.Parallel`: two registries in which the same is found under the two spellings;
* `Catalog.SaidAlike`, `Catalog.Translated`: counterparts of which the same is said, and registries
  that consist of such.

Main results:

* `Catalog.Parallel.spelled`, `Catalog.Parallel.identity_eq`: counterparts have one identity, of
  which their paths are the two spellings;
* `Manifest.Respelled.twins_ledgerAt`: namespaces of the same names have written down the same;
* `Manifest.load_respelled`: **a respelled manifest is accepted, and the two registries
  correspond**.
-/

import DocCatalog.Proofs.Export.SameAnswers
import DocCatalog.Proofs.Manifest.Accessors
import DocCatalog.Proofs.Manifest.Aliases
import DocCatalog.Proofs.Manifest.Respelling

set_option autoImplicit false

namespace DocCatalog

open Catalog Manifest
open Separators (Spelled Spells)

/-! ### Counterparts -/

namespace Catalog

variable {r r' : Registry} {c c' : Catalog} {e e' : EntityId} {p p' : String}

/-- What two registries hold under the two spellings of one identity. -/
def Counterparts (r : Registry) (c : Catalog) (r' : Registry) (c' : Catalog) (e e' : EntityId) :
    Prop :=
  ∃ p p', Spells r.separators r'.separators p p' ∧ (c.entries r).get? p = some e ∧
    (c'.entries r').get? p' = some e'

/-- Two registries in step in which the same is found under the two spellings of each identity, and
nothing else. -/
structure Parallel (r : Registry) (c : Catalog) (r' : Registry) (c' : Catalog) : Prop where
  lockstep : Lockstep r c
  lockstep' : Lockstep r' c'
  view_eq : ∀ {p p'}, Spells r.separators r'.separators p p' → c'.view r' p' = c.view r p
  spells : ∀ {p}, c.view r p ≠ none → ∃ p', Spells r.separators r'.separators p p'
  spells' : ∀ {p'}, c'.view r' p' ≠ none → ∃ p, Spells r.separators r'.separators p p'

theorem Counterparts.symm (he : Counterparts r c r' c' e e') : Counterparts r' c' r c e' e := by
  obtain ⟨p, p', hp, hget, hget'⟩ := he
  exact ⟨p', p, hp.symm, hget', hget⟩

namespace Parallel

theorem symm (h : Parallel r c r' c') : Parallel r' c' r c where
  lockstep := h.lockstep'
  lockstep' := h.lockstep
  view_eq hp := (h.view_eq hp.symm).symm
  spells hview := (h.spells' hview).imp fun _ hp => hp.symm
  spells' hview := (h.spells hview).imp fun _ hp => hp.symm

theorem right_unique (h : Parallel r c r' c') {d' : EntityId} (he : Counterparts r c r' c' e e')
    (hd : Counterparts r c r' c' e d') : e' = d' := by
  obtain ⟨p, p', hp, hget, hget'⟩ := he
  obtain ⟨q, q', hq, hgot, hgot'⟩ := hd
  obtain rfl := (h.lockstep.keysHold.path_eq hget).symm.trans (h.lockstep.keysHold.path_eq hgot)
  have hspells : Relator.BiUnique (Spells r.separators r'.separators) :=
    Separators.biUnique_spells r.config.distinct r'.config.distinct
  obtain rfl := hspells.2 hp hq
  exact Option.some.inj (hget'.symm.trans hgot')

variable (h : Parallel r c r' c')
include h

theorem biUnique : Relator.BiUnique (Counterparts r c r' c') :=
  ⟨fun _ _ _ he hd => h.symm.right_unique he.symm hd.symm, fun _ _ _ => h.right_unique⟩

/-- What is held under the two spellings of an identity are counterparts. -/
theorem rel_get? (hp : Spells r.separators r'.separators p p') :
    Option.Rel (Counterparts r c r' c') ((c.entries r).get? p) ((c'.entries r').get? p') := by
  have hview := h.view_eq hp
  unfold view at hview
  cases he : (c.entries r).get? p <;> cases he' : (c'.entries r').get? p' <;> rw [he, he'] at hview
  · exact .none
  · cases hview
  · cases hview
  · exact .some ⟨p, p', hp, he, he'⟩

theorem exists_right (hreg : c.isRegistered r e = true) : ∃ e', Counterparts r c r' c' e e' := by
  have hview : c.view r (c.path e) ≠ none := by simp [view_path hreg]
  obtain ⟨p', hp⟩ := h.spells hview
  have hrel := h.rel_get? hp
  rw [get?_of_isRegistered hreg] at hrel
  generalize (c'.entries r').get? p' = e?' at hrel
  cases hrel with
  | some he => exact ⟨_, he⟩

theorem exists_left (hreg : c'.isRegistered r' e' = true) : ∃ e, Counterparts r c r' c' e e' :=
  (h.symm.exists_right hreg).imp fun _ he => he.symm

section Pair

variable (he : Counterparts r c r' c' e e')
include he

theorem isRegistered : c.isRegistered r e = true ∧ c'.isRegistered r' e' = true := by
  obtain ⟨p, p', -, hget, hget'⟩ := he
  rw [Catalog.isRegistered, Catalog.isRegistered, h.lockstep.keysHold.path_eq hget,
    h.lockstep'.keysHold.path_eq hget', hget, hget']
  simp

theorem profile_eq : (c'.entity e').profile = (c.entity e).profile := by
  obtain ⟨p, p', hp, hget, hget'⟩ := he
  have hview := h.view_eq hp
  simpa [view, hget, hget'] using hview

theorem scope?_eq : (c.entity e).scope? = (c'.entity e').scope? :=
  congrArg Profile.scope? (h.profile_eq he).symm

/-- The paths of counterparts are the two spellings of the identity of the one. -/
theorem spelled : Spelled r.separators r'.separators (ownerNames (c.entity e).lineage)
    (c.entity e).name (c.entity e).scope? (c.path e) (c'.path e') := by
  obtain ⟨p, p', ⟨owners, name, scope?, hp⟩, hget, hget'⟩ := he
  have hx := h.lockstep.placed_of_get? hget
  have hplain := h.lockstep.plainIn hx
  have hpath := h.lockstep.keysHold.path_eq hget
  obtain ⟨rfl, rfl, rfl⟩ := hp.eq_of_left r.config.distinct hplain.ownerNames_plain hx.plain
    (hpath.symm.trans (hplain.path_eq (kind_ne_root_of_scope hx.kind)))
  rwa [hpath, h.lockstep'.keysHold.path_eq hget']

/-- **Counterparts have one identity.** -/
theorem identity_eq : ownerNames (c'.entity e').lineage = ownerNames (c.entity e).lineage ∧
    (c'.entity e').name = (c.entity e).name := by
  have hleft := h.spelled he
  have hright := (h.symm.spelled he.symm).symm
  obtain ⟨howners, hname, -⟩ := hright.eq_of_left r.config.distinct
    (fun o ho => (hleft.owners_plain o ho).1) hleft.name_plain.1 hleft.left
  exact ⟨howners, hname⟩

end Pair

/-- Under the two spellings of an identity counterparts are denoted. -/
theorem rel_denoted (hp : Spells r.separators r'.separators p p') :
    Option.Rel (Counterparts r c r' c') (c.denoted r p) (c'.denoted r' p') := by
  obtain ⟨_, _, _, hspelled⟩ := hp
  rw [denoted, denoted, lookup?, lookup?, if_neg hspelled.left_ne_empty,
    if_neg hspelled.symm.left_ne_empty]
  refine rel_filter (h.rel_get? hspelled.spells) fun e e' he => ?_
  have hkind : (c'.entity e').kind = (c.entity e).kind := congrArg Profile.kind (h.profile_eq he)
  rw [hkind]

end Parallel

/-! ### What is said of counterparts -/

/-- The same is said of two counterparts: both have one identity, of which their paths are the
renderings, one type and one description, and counterparts for accessors and aliases; and two
namespaces have written down the same, of counterparts. -/
structure SaidAlike (r : Registry) (c : Catalog) (r' : Registry) (c' : Catalog) (e e' : EntityId) :
    Prop where
  registered : c.isRegistered r e = true ∧ c'.isRegistered r' e' = true
  path : c.path e = r.separators.render (ownerNames (c.entity e).lineage) (c.entity e).name
    (c.entity e).scope?
  path' : c'.path e' = r'.separators.render (ownerNames (c.entity e).lineage) (c.entity e).name
    (c.entity e).scope?
  owners : ownerNames (c'.entity e').lineage = ownerNames (c.entity e).lineage
  name : (c'.entity e').name = (c.entity e).name
  kind : (c'.entity e').kind = (c.entity e).kind
  docstring : (c'.entity e').docstring = (c.entity e).docstring
  files : (c'.entity e').files = (c.entity e).files
  /-- The scope, the visibility, the parameters and whether it is explicit, if it is a method. -/
  method : (c'.entity e').method? = (c.entity e).method?
  accessors : Option.Rel (Accessors.Twins (Counterparts r c r' c')) (c.accessors? e)
    (c'.accessors? e')
  aliases : List.Forall₂ (Counterparts r c r' c') (c.aliasesOf e) (c'.aliasesOf e')
  /-- The attributes and the aliases that it has written down, if it is a namespace. -/
  written : Tables.Twins (Counterparts r c r' c') (c.ledger e) (c'.ledger e')

/-- Two registries consist of counterparts, one for one, of which the same is said, and at the top
level the same is written down. -/
structure Translated (r : Registry) (c : Catalog) (r' : Registry) (c' : Catalog) : Prop where
  biUnique : Relator.BiUnique (Counterparts r c r' c')
  left : ∀ e, c.isRegistered r e = true → ∃ e', Counterparts r c r' c' e e'
  right : ∀ e', c'.isRegistered r' e' = true → ∃ e, Counterparts r c r' c' e e'
  said : ∀ e e', Counterparts r c r' c' e e' → SaidAlike r c r' c' e e'
  written_root : Tables.Twins (Counterparts r c r' c') (c.ledger (c.root r))
    (c'.ledger (c'.root r'))

end Catalog

/-! ### What the namespaces have written down -/

namespace Tables.Twins

variable {R : EntityId → EntityId → Prop} {denoted denoted' : String → Option EntityId}
  {r r' : Registry} {t t' : Tables} {entry : Fields} {part : Part}

theorem accessors? (h : Tables.Twins R t t') (scope : Scope) (name : String) :
    Option.Rel (Accessors.Twins R) (t.accessors? scope name) (t'.accessors? scope name) :=
  rel_bind (h.attributes scope) fun _ _ ha => ha.find? _

/-- An entry and its respelling write down what corresponds, if the methods that they refer to
do. -/
theorem enter (h : Tables.Twins R t t') (hR : Relator.BiUnique R) (hlegible : Legible part entry)
    (hrefs : ∀ key ∈ referenceKeys part, Option.Rel R ((textAt? entry key).bind denoted)
      ((textAt? (respellEntry r r' part entry) key).bind denoted')) :
    Tables.Twins R (t.enter denoted entry part)
      (t'.enter denoted' (respellEntry r r' part entry) part) := by
  cases part with
  | namespaces => exact h
  | methods => exact h
  | attributes =>
      rw [Tables.enter, Tables.enter, scopeOf?_respellEntry, nameOf_respellEntry]
      cases scopeOf? entry with
      | none => exact h
      | some scope =>
          have htable := rel_getD (h.attributes scope) .empty
          exact h.setAttributes scope (.some (htable.extend _ (hrefs "read" (by decide))
            (hrefs "write" (by decide))))
  | aliases =>
      -- an alias gives its method, so that there is a path to be denoted
      obtain ⟨target, htarget⟩ := hlegible.2.1
      have hrel := hrefs "method" (by decide)
      rw [textAt?_respellEntry, textAt?_of_text htarget, Option.map_some, Option.bind_some,
        Option.bind_some] at hrel
      rw [Tables.enter, Tables.enter, aliasName_respellEntry]
      refine h.insertAlias hR ?_ _
      rwa [aliasMethod, aliasMethod, textAt?_respellEntry, textAt?_of_text htarget]

theorem foldl_enter (hR : Relator.BiUnique R) {l : List Fields}
    (hlegible : ∀ entry ∈ l, Legible part entry)
    (hrefs : ∀ entry ∈ l, ∀ key ∈ referenceKeys part,
      Option.Rel R ((textAt? entry key).bind denoted)
        ((textAt? (respellEntry r r' part entry) key).bind denoted')) :
    ∀ {t t' : Tables}, Tables.Twins R t t' →
      Tables.Twins R (l.foldl (fun t entry => t.enter denoted entry part) t)
        ((l.map (respellEntry r r' part)).foldl
          (fun t entry => t.enter denoted' entry part) t') := by
  induction l with
  | nil => exact id
  | cons entry l ih =>
      intro t t' h
      exact ih (fun entry he => hlegible entry (by simp [he]))
        (fun entry he => hrefs entry (by simp [he]))
        (h.enter hR (hlegible entry (by simp)) (hrefs entry (by simp)))

end Tables.Twins

/-! ### Respelled manifests -/

namespace Manifest

variable {r r' : Registry} {data data' : Value} {c c' : Catalog} {e : EntityId} {p key : String}
  {entry : Fields} {part : Part}

/-- Where a manifest is loaded and its respelling elsewhere, the same is found under the two
spellings. -/
theorem Respelled.parallel (h : Respelled r r' data data')
    (hvisibility : r'.config.visibility = r.config.visibility) (hl : Loaded r (rows data) c)
    (hl' : Loaded r' (rows data') c') : Parallel r c r' c' where
  lockstep := hl.lockstep
  lockstep' := hl'.lockstep
  view_eq := by
    rintro p p' ⟨_, _, _, hp⟩
    rw [hl.view_eq, hl'.view_eq, h.found_eq hvisibility hp]
  spells {p} hview := by
    rw [hl.view_eq] at hview
    exact spells_of_found h.names (fun part entry he => hl.accepted (part, entry) (mem_rows.2 he))
      hview
  spells' {p'} hview := by
    rw [hl'.view_eq] at hview
    obtain ⟨p, hp⟩ := spells_of_found h.names'
      (fun part entry he => hl'.accepted (part, entry) (mem_rows.2 he)) hview
    exact ⟨p, hp.symm⟩

/-- The tables of the namespace of some names after the entries about it, where paths denote methods
in some way. -/
def written (r : Registry) (data : Value) (denoted : String → Option EntityId)
    (names : List String) : Tables :=
  (about .aliases (r.separators.spacePath names) (entriesIn data .aliases)).foldl
    (fun t entry => t.enter denoted entry .aliases)
    ((about .attributes (r.separators.spacePath names) (entriesIn data .attributes)).foldl
      (fun t entry => t.enter denoted entry .attributes) {})

/-- What the namespaces have written down is what the entries about them say. -/
def WrittenAsSaid (r : Registry) (data : Value) (c : Catalog) : Prop :=
  ∀ names, c.ledgerAt r (r.separators.spacePath names) = written r data (c.denoted r) names

/-- In a new registry the namespaces write down what an accepted manifest says. -/
theorem writtenAsSaid {s : Session} (hs : s.Reachable) {config : Config}
    (hclean : ∀ part, ∀ entry ∈ entriesIn data part,
      Clean (s.catalog.openRegistry config).1 part entry)
    (hok : load (s.catalog.openRegistry config).1 data (s.catalog.openRegistry config).2 =
      (.ok (), c)) : WrittenAsSaid (s.catalog.openRegistry config).1 data c := by
  intro names
  have hlock := (Loaded.fresh hs config).lockstep
  rw [(loadFresh_enters hs config hclean hok).ledgerAt, ledgerAt_fresh,
    denoted_turn hlock hclean hok (.inl rfl), denoted_turn hlock hclean hok (.inr rfl), written]

namespace Respelled

variable (hr : Respelled r r' data data') (h : Parallel r c r' c')
  (hreferred : ∀ part, ∀ entry ∈ entriesIn data part, ∀ p ∈ references part entry,
    ∃ described ∈ entriesIn data .methods, methodPath? r described = some p)
include hr h hreferred

/-- Where an entry refers to a method, its respelling refers to the counterpart. -/
theorem rel_reference (he : entry ∈ entriesIn data part) (hkey : key ∈ referenceKeys part) :
    Option.Rel (Counterparts r c r' c') ((textAt? entry key).bind (c.denoted r))
      ((textAt? (respellEntry r r' part entry) key).bind (c'.denoted r')) := by
  rw [textAt?_respellEntry]
  cases htext : textAt? entry key with
  | none => exact .none
  | some p =>
      have hp : p ∈ references part entry := by
        rw [references_eq]
        exact List.mem_filterMap.2 ⟨key, hkey, htext⟩
      obtain ⟨described, hmem, hpath⟩ := hreferred part entry he p hp
      obtain ⟨_, _, _, hspelled⟩ := (hr.names .methods described hmem).spelled_of_methodPath? hpath
      rw [Option.map_some, respellText_reference hkey, Option.bind_some, Option.bind_some]
      exact h.rel_denoted hspelled.spells

variable (hlegible : ∀ part, ∀ entry ∈ entriesIn data part, Legible part entry)
  (hw : WrittenAsSaid r data c) (hw' : WrittenAsSaid r' data' c')
include hlegible hw hw'

/-- **The namespaces of the same names have written down the same, of counterparts.** -/
theorem twins_ledgerAt {names : List String}
    (hnames : ∀ n ∈ names, r.separators.Plain n ∧ r'.separators.Plain n) :
    Tables.Twins (Counterparts r c r' c') (c.ledgerAt r (r.separators.spacePath names))
      (c'.ledgerAt r' (r'.separators.spacePath names)) := by
  rw [hw, hw', written, written, hr.entries, hr.entries, about_respelled (hr.names _) hnames,
    about_respelled (hr.names _) hnames]
  have hpart : ∀ part, ∀ entry ∈ about part (r.separators.spacePath names) (entriesIn data part),
      entry ∈ entriesIn data part := fun _ _ he => List.mem_of_mem_filter he
  refine .foldl_enter h.biUnique (fun entry he => hlegible _ entry (hpart _ entry he))
    (fun entry he _ => hr.rel_reference h hreferred (hpart _ entry he)) ?_
  refine .foldl_enter h.biUnique (fun entry he => hlegible _ entry (hpart _ entry he))
    (fun entry he _ => hr.rel_reference h hreferred (hpart _ entry he)) .empty

/-- Counterparts have written down the same; what is no namespace has written nothing. -/
theorem twins_ledger {e' : EntityId} (he : Counterparts r c r' c' e e') :
    Tables.Twins (Counterparts r c r' c') (c.ledger e) (c'.ledger e') := by
  have hspelled := h.spelled he
  have hkind : (c'.entity e').kind = (c.entity e).kind := congrArg Profile.kind (h.profile_eq he)
  obtain ⟨p, p', -, hget, hget'⟩ := id he
  rcases (h.lockstep.placed_of_get? hget).kind with hspace | hmethod
  · have hledger := hr.twins_ledgerAt h hreferred hlegible hw hw' hspelled.names_plain
    rw [scope?_of_kind_space hspace] at hspelled
    rwa [← Separators.render_none, ← Separators.render_none, ← hspelled.left, ← hspelled.right,
      h.lockstep.keysHold.path_eq hget, h.lockstep'.keysHold.path_eq hget',
      h.lockstep.ledgerAt_of_get? hget, h.lockstep'.ledgerAt_of_get? hget'] at hledger
  · rw [Catalog.ledger, Catalog.ledger,
      Entity.ledger_eq_empty (x := c.entity e) (by simp [Entity.isSpace_eq_kind, hmethod]),
      Entity.ledger_eq_empty (x := c'.entity e') (by simp [Entity.isSpace_eq_kind, hkind, hmethod])]
    exact .empty

/-- **Two registries in which a manifest and its respelling are loaded consist of counterparts of
which the same is said.** -/
theorem translated : Translated r c r' c' := by
  refine ⟨h.biUnique, fun e => h.exists_right, fun e' => h.exists_left, fun e e' he => ?_, ?_⟩
  · have hspelled := h.spelled he
    obtain ⟨howners, hname⟩ := h.identity_eq he
    have hprofile := h.profile_eq he
    have hscope := h.scope?_eq he
    obtain ⟨p, p', -, hget, hget'⟩ := id he
    obtain ⟨n, ho, hn⟩ := h.lockstep.owner_of_get? hget
    obtain ⟨n', ho', hn'⟩ := h.lockstep'.owner_of_get? hget'
    have howner := hr.twins_ledgerAt h hreferred hlegible hw hw' hspelled.owners_plain
    rw [h.lockstep.ledgerAt_of_stands hn, ← howners, h.lockstep'.ledgerAt_of_stands hn'] at howner
    refine ⟨h.isRegistered he, hspelled.left, hspelled.right, howners, hname,
      congrArg Profile.kind hprofile, congrArg Profile.docstring hprofile,
      congrArg Profile.files hprofile, congrArg Profile.method? hprofile, ?_, ?_,
      hr.twins_ledger h hreferred hlegible hw hw' he⟩
    · cases hs : (c.entity e).scope? with
      | none =>
          have hs' : (c'.entity e').scope? = none := hscope ▸ hs
          simp only [accessors?, ho, ho', hs, hs']
          exact .none
      | some scope =>
          rw [accessors?_eq ho hs, accessors?_eq ho' (hscope ▸ hs), Entity.attributeName,
            Entity.attributeName, hname]
          exact howner.accessors? scope _
    · refine forall₂_aliasesOf h.biUnique he hname.symm h.scope?_eq ?_
      rw [ho, ho']
      exact .some howner.aliases
  · -- the root has no names, and is found at the empty path
    have hroot : Tables.Twins (Counterparts r c r' c')
        (c.ledgerAt r (r.separators.spacePath [])) (c'.ledgerAt r' (r'.separators.spacePath [])) :=
      hr.twins_ledgerAt h hreferred hlegible hw hw' (by simp)
    exact hroot

end Respelled

/-- **A manifest that is accepted into a new registry is accepted respelled into one with other
separators**, if the two registries give the same visibility and all names are plain for both; and
the two registries consist of counterparts of which the same is said. -/
theorem load_respelled {s s' : Session} (hs : s.Reachable) (hs' : s'.Reachable)
    {config config' : Config} (hvisibility : config'.visibility = config.visibility)
    (hnames : ∀ part, ∀ entry ∈ entriesIn data part,
      Respellable (s.catalog.openRegistry config).1 (s'.catalog.openRegistry config').1 part entry)
    (hok : load (s.catalog.openRegistry config).1 data (s.catalog.openRegistry config).2 =
      (.ok (), c)) :
    let r := (s.catalog.openRegistry config).1
    let r' := (s'.catalog.openRegistry config').1
    ∃ c', load r' (respell r r' data) (s'.catalog.openRegistry config').2 = (.ok (), c') ∧
      Translated r c r' c' := by
  intro r r'
  obtain ⟨_, c', hok'⟩ := respell_succeeds hs hs' hnames ⟨_, c, hok⟩
  refine ⟨c', hok', ?_⟩
  have hclean := fun part entry he => (hnames part entry he).clean
  obtain ⟨hshaped, hlegible, hreferred⟩ := (fresh_succeeds_iff hs hclean).1 ⟨_, c, hok⟩
  have hr : Respelled r r' data (respell r r' data) :=
    ⟨(entriesIn_respell r r' hshaped).2, hnames⟩
  have hl : Loaded r (rows data) c := .of_load hs hclean hok
  have hl' : Loaded r' (rows (respell r r' data)) c' := .of_load hs' hr.clean' hok'
  exact hr.translated (hr.parallel hvisibility hl hl') hreferred hlegible
    (writtenAsSaid hs hclean hok) (writtenAsSaid hs' hr.clean' hok')

/-- A shop with methods of both scopes, one of them at the top level, an attribute and an alias, in
separators of which one begins like another.  As it is, the manifest is refused there, as its paths
denote nothing. -/
theorem load_respelled_shop :
    let config' : Config := { separators := ⟨".", "..", "#"⟩, distinct := by decide }
    let method (space name scope : String) : Value := .dict [("namespace", .text space),
      ("name", .text name), ("scope", .text scope)]
    let reading : Value := .dict [("namespace", .text "Shop::Cart"), ("name", .text "total"),
      ("read", .text "Shop::Cart#total"), ("write", .text "Shop::Cart.make")]
    let binding : Value := .dict [("namespace", .text "Shop::Cart"), ("method", .text "::sum"),
      ("aliases", .text "make")]
    let data : Value := .dict [("namespaces", .list [.dict [("path", .text "Shop")]]),
      ("methods", .list [method "Shop::Cart" "total" "instance", method "Shop::Cart" "make" "class",
        method "" "sum" "class"]),
      ("attributes", .list [reading]), ("aliases", .list [binding])]
    let r := (({} : Catalog).openRegistry {}).1
    let r' := (({} : Catalog).openRegistry config').1
    let c := (load r data (({} : Catalog).openRegistry {}).2).2
    ∃ c', load r' (respell r r' data) (({} : Catalog).openRegistry config').2 = (.ok (), c') ∧
      Translated r c r' c' ∧
      c.paths r = ["Shop", "Shop::Cart", "Shop::Cart#total", "Shop::Cart.make", "::sum"] ∧
      c'.paths r' = ["Shop", "Shop.Cart", "Shop.Cart#total", "Shop.Cart..make", ".sum"] ∧
      c'.aliasesOf ⟨4⟩ = [⟨5⟩] ∧
      (load r' data (({} : Catalog).openRegistry config').2).1.toBool = false := by
  intro config' method reading binding data r r' c
  have hok : (load r data (({} : Catalog).openRegistry {}).2).1.toBool = true := by decide +kernel
  obtain ⟨_, hrun⟩ := Action.exists_eq_ok hok
  have hnames : ∀ part, ∀ entry ∈ entriesIn data part, Respellable r r' part entry := by
    intro part
    cases part <;> decide +kernel
  have hnew : ({} : Session).Reachable := .refl
  obtain ⟨c', hload, htranslated⟩ := load_respelled hnew hnew
    (show config'.visibility = ({} : Config).visibility from rfl) hnames hrun
  refine ⟨c', hload, htranslated, by decide +kernel, ?_, ?_, by decide +kernel⟩
  all_goals
    have hc' : c' = (load r' (respell r r' data) (({} : Catalog).openRegistry config').2).2 := by
      rw [hload]
    rw [hc']
    decide +kernel

end Manifest

end DocCatalog
