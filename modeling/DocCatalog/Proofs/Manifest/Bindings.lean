/-
**What an accepted manifest binds to the paths of methods.**

An attribute and an alias name methods by their paths, and what is written down is the method that
the path denotes when the entry is loaded.  The sections come one after the other, and an entry of
an attribute or of an alias makes nothing but namespaces, which take the place of nothing.  So a
path denotes one method through the whole of a section, and the tables of a namespace are those that
the entries about it write into them, one entry after the other.

Main definitions:

* `Catalog.denoted`: the method that a path denotes;
* `Tables.enter`: the tables of a namespace after an entry about it;
* `Manifest.turn`: the catalog when the turn of a section has come;
* `Manifest.NewMethod`: a method that is made between one catalog and another.

Main results:

* `Manifest.loadEntry_enters`: what an entry writes, and that it changes what no path denotes;
* `Manifest.loadSection_enters`: so for a section;
* `Manifest.load_enters`: **the tables after an accepted manifest**;
* `Manifest.ledger_of_newMethod`: what the owner of a method has written down after a manifest in a
  new registry, whatever scopes are given to methods afterwards.
-/

import DocCatalog.Proofs.Manifest.Fresh
import DocCatalog.Proofs.Manifest.Refusal
import DocCatalog.Proofs.Registry.Rescoping

set_option autoImplicit false

namespace DocCatalog

open Catalog Manifest

/-- Of what some items give the last counts, and before the first item there may be something. -/
theorem getLast?_filterMap_cons {α β : Type} (f : α → Option β) (x : α) (l : List α) :
    ((x :: l).filterMap f).getLast? = (l.filterMap f).getLast?.or (f x) := by
  cases hx : f x with
  | none => simp [hx]
  | some y => cases hl : (l.filterMap f).getLast? <;> simp [hx, hl, List.getLast?_cons]

/-- The tables of a namespace after an entry about it, where paths denote methods in some way. -/
def Tables.enter (t : Tables) (denoted : String → Option EntityId) (entry : Fields) :
    Part → Tables
  | .attributes => match scopeOf? entry with
      | some s => t.setAttributes s (some (((t.attributes? s).getD ∅).extend (.text (nameOf entry))
          ((textAt? entry "read").bind denoted) ((textAt? entry "write").bind denoted)))
      | none => t
  | .aliases =>
      { t with aliases := t.aliases.insert (denoted (aliasMethod entry)) (aliasName entry) }
  | _ => t

/-! ### What a path denotes -/

namespace Catalog

variable {c c' : Catalog} {r : Registry} {m : EntityId} {p : String} {part : Part}

/-- The method that a path denotes: what is found there, if it is a method. -/
def denoted (c : Catalog) (r : Registry) (p : String) : Option EntityId :=
  (c.lookup? r p).filter fun e => (c.entity e).kind = .method

theorem methodAt_eq_ok_iff : methodAt c r p part = .ok m ↔ c.denoted r p = some m := by
  unfold methodAt denoted
  cases c.lookup? r p with
  | none => simp [refuse]
  | some e =>
      by_cases hkind : (c.entity e).kind = .method <;>
        simp [refuse, hkind, Option.filter_some]

theorem methodAt?_eq_ok {path? : Option String} {m? : Option EntityId}
    (h : methodAt? c r path? part = .ok m?) : path?.bind (c.denoted r) = m? := by
  cases path? with
  | none =>
      cases h
      rfl
  | some path =>
      have h : (methodAt c r path part).map some = .ok m? := h
      cases hm : methodAt c r path part with
      | error fault => rw [hm] at h; cases h
      | ok m =>
          rw [hm] at h
          cases h
          exact methodAt_eq_ok_iff.1 hm

theorem Lockstep.get?_of_denoted (h : Lockstep r c) (hd : c.denoted r p = some m) :
    (c.entries r).get? p = some m ∧ (c.entity m).kind = .method := by
  have hok : methodAt c r p .aliases = .ok m := methodAt_eq_ok_iff.2 hd
  obtain ⟨hreg, hkind, hp⟩ := methodAt_eq_ok h hok
  exact ⟨hp ▸ get?_of_isRegistered hreg, hkind⟩

theorem Lockstep.denoted_of_get? (h : Lockstep r c) (hget : (c.entries r).get? p = some m)
    (hkind : (c.entity m).kind = .method) : c.denoted r p = some m := by
  have hp : p ≠ "" := by
    rintro rfl
    rw [h.vacant] at hget
    cases hget
  simp [denoted, lookup?, hp, hget, hkind]

/-- A path denotes a method exactly where one is found. -/
theorem Lockstep.isSome_denoted_iff (h : Lockstep r c) :
    (c.denoted r p).isSome = true ↔ (c.view r).HasMethod p := by
  have hreads : Reads (methodAt c r p .aliases) ↔ (c.view r).HasMethod p := reads_methodAt_iff h
  rw [← hreads, Option.isSome_iff_exists]
  exact exists_congr fun m => methodAt_eq_ok_iff.symm

/-- What goes on holding what it holds, and has no method anew, changes what no path denotes. -/
theorem Lockstep.denoted_eq (h : Lockstep r c) (h' : Lockstep r c') (hl : Later c c')
    (hkeep : Retains r c c') (hnew : ∀ p, (c'.view r).HasMethod p → (c.view r).HasMethod p) :
    c'.denoted r = c.denoted r := by
  funext p
  cases hd : c.denoted r p with
  | some m =>
      obtain ⟨hget, hkind⟩ := h.get?_of_denoted hd
      exact h'.denoted_of_get? (hkeep p m hget)
        ((hl.kind (h.wellFormed.knows_entry hget)).trans hkind)
  | none =>
      refine Option.not_isSome_iff_eq_none.1 fun hsome => ?_
      have := h.isSome_denoted_iff.2 (hnew p (h'.isSome_denoted_iff.1 hsome))
      rw [hd] at this
      cases this

end Catalog

/-! ### Entries -/

namespace Manifest

variable {c c' : Catalog} {r : Registry} {n : EntityId} {entry : Fields} {part : Part}
  {data : Value} {l : List Fields} {p : String}

theorem later_loadEntry (h : Lockstep r c) (hok : loadEntry r part entry c = (.ok (), c')) :
    Later c c' := by
  have hw := (leads_loadEntry h.opened part entry h.wellFormed).1
  rw [hok] at hw
  exact hw.later

/-- The namespaces on the way of an entry write nothing, and change what no path denotes. -/
theorem reach_enters (h : Lockstep r c) (hclean : Clean r part entry)
    (hok : ensureNamespace r (spaceOf part entry) c = (.ok n, c')) :
    Lockstep r c' ∧ Stands r c' n (spaceOf part entry) ∧ c'.denoted r = c.denoted r ∧
      ∀ p, c'.ledgerAt r p = c.ledgerAt r p := by
  obtain ⟨h', hn, hv, hkeep⟩ := reach_ok h hclean rfl hok
  have hw := (leads_ensureNamespace h.opened (spaceOf part entry) h.wellFormed).1
  rw [hok] at hw
  refine ⟨h', hn, h.denoted_eq h' hw.later hkeep fun p => ?_,
    h.ledgerAt_eq_of_quiet h' ((quiet_ensureNamespace r _).of_run hok)⟩
  rw [hv]
  exact (hasMethod_reach _ _ p).1

theorem loadAttribute_enters (h : Lockstep r c) (hclean : Clean r .attributes entry)
    (hok : loadAttribute r entry c = (.ok (), c')) (p : String) :
    c'.ledgerAt r p = if spaceOf .attributes entry = p
      then (c.ledgerAt r p).enter (c.denoted r) entry .attributes else c.ledgerAt r p := by
  obtain ⟨n, c₁, read, write, a, hreach, hread, hwrite, hadd⟩ := loadAttribute_eq_ok hok
  obtain ⟨h₁, hn, hdenoted, hledger⟩ := reach_enters h hclean hreach
  obtain ⟨ht, s, hs, hl⟩ := addAttribute_ledger hn.isSpace hadd
  rw [h₁.ledgerAt_write hn ht hl p, ← hledger, ← hdenoted]
  split
  · next hp =>
      rw [Tables.enter, show scopeOf? entry = some s from hs, methodAt?_eq_ok hread,
        methodAt?_eq_ok hwrite, ← hp, h₁.ledgerAt_of_stands hn]
  · rfl

theorem loadAlias_enters (h : Lockstep r c) (hclean : Clean r .aliases entry)
    (hok : loadAlias r entry c = (.ok (), c')) (p : String) :
    c'.ledgerAt r p = if spaceOf .aliases entry = p
      then (c.ledgerAt r p).enter (c.denoted r) entry .aliases else c.ledgerAt r p := by
  obtain ⟨n, c₁, m, hreach, hmethod, rfl⟩ := loadAlias_eq_ok hok
  obtain ⟨h₁, hn, hdenoted, hledger⟩ := reach_enters h hclean hreach
  have ht : Retouches n c₁ (c₁.addAlias n (some m) (.text (aliasName entry))) :=
    retouches_updateTables c₁ n fun _ => rfl
  rw [h₁.ledgerAt_write hn ht (fun m' => ledger_updateTables n m' _ hn.isSpace) p, ← hledger,
    ← hdenoted]
  split
  · next hp =>
      rw [Tables.enter, methodAt_eq_ok_iff.1 hmethod, ← hp, h₁.ledgerAt_of_stands hn]
      rfl
  · rfl

/-- **What an accepted entry writes**: the tables of its namespace have what it says, all others are
as they were. -/
theorem loadEntry_enters (h : Lockstep r c) (hclean : Clean r part entry)
    (hok : loadEntry r part entry c = (.ok (), c')) (p : String) :
    c'.ledgerAt r p = if spaceOf part entry = p
      then (c.ledgerAt r p).enter (c.denoted r) entry part else c.ledgerAt r p := by
  have hquiet : Quiet c c' → c'.ledgerAt r p = c.ledgerAt r p := fun hq =>
    h.ledgerAt_eq_of_quiet (loadEntry_ok h hclean hok).lockstep hq p
  cases part with
  | namespaces => simpa [Tables.enter] using hquiet ((quiet_loadNamespace r entry).of_run hok)
  | methods => simpa [Tables.enter] using hquiet ((quiet_loadMethod r entry).of_run hok)
  | attributes => exact loadAttribute_enters h hclean hok p
  | aliases => exact loadAlias_enters h hclean hok p

/-- An entry that describes no method changes what no path denotes. -/
theorem loadEntry_denoted (h : Lockstep r c) (hclean : Clean r part entry) (hpart : part ≠ .methods)
    (hok : loadEntry r part entry c = (.ok (), c')) : c'.denoted r = c.denoted r := by
  have happlied := loadEntry_ok h hclean hok
  refine h.denoted_eq happlied.lockstep (later_loadEntry h hok)
    (fun p e he => happlied.retains p e he fun hp => absurd hp hpart) fun p hp => ?_
  rw [happlied.view_eq, hasMethod_step happlied.accepted] at hp
  exact hp.resolve_right fun hm => hpart hm.1

/-! ### Sections -/

/-- The entries of a section that are about the namespace at a path. -/
def about (part : Part) (p : String) (l : List Fields) : List Fields :=
  l.filter fun entry => spaceOf part entry = p

/-- Through a section that describes no methods a path denotes what it did before. -/
theorem loadSection_denoted (h : Lockstep r c) (hclean : ∀ entry ∈ l, Clean r part entry)
    (hpart : part ≠ .methods) (hok : l.forM (loadEntry r part) c = (.ok (), c')) :
    Lockstep r c' ∧ c'.denoted r = c.denoted r :=
  Action.forM_keeps (P := fun c₁ => Lockstep r c₁ ∧ c₁.denoted r = c.denoted r)
    (fun entry he {_ _} hc hrun =>
      ⟨(loadEntry_ok hc.1 (hclean entry he) hrun).lockstep,
        (loadEntry_denoted hc.1 (hclean entry he) hpart hrun).trans hc.2⟩) ⟨h, rfl⟩ hok

/-- **What an accepted section writes**, if it describes no methods: in the tables of each namespace
what the entries about it say, one after the other. -/
theorem loadSection_enters (h : Lockstep r c) (hclean : ∀ entry ∈ l, Clean r part entry)
    (hpart : part ≠ .methods) (hok : l.forM (loadEntry r part) c = (.ok (), c')) (p : String) :
    c'.ledgerAt r p = (about part p l).foldl (fun t entry => t.enter (c.denoted r) entry part)
      (c.ledgerAt r p) := by
  rw [about, List.foldl_filter]
  have hfold := Action.forM_fold
    (P := fun c₁ t => (Lockstep r c₁ ∧ c₁.denoted r = c.denoted r) ∧ c₁.ledgerAt r p = t)
    (g := fun t entry => if decide (spaceOf part entry = p) = true
      then t.enter (c.denoted r) entry part else t)
    (fun entry he {c₁ c₂ t} hc hrun => by
      obtain ⟨⟨h₁, hdenoted⟩, rfl⟩ := hc
      refine ⟨⟨(loadEntry_ok h₁ (hclean entry he) hrun).lockstep,
        (loadEntry_denoted h₁ (hclean entry he) hpart hrun).trans hdenoted⟩, ?_⟩
      simp only [loadEntry_enters h₁ (hclean entry he) hrun, hdenoted, decide_eq_true_eq])
    ⟨⟨h, rfl⟩, rfl⟩ hok
  exact hfold.2

/-- Every method that an accepted section refers to is one that its path denotes. -/
theorem loadSection_refers (h : Lockstep r c) (hclean : ∀ entry ∈ l, Clean r part entry)
    (hpart : part ≠ .methods) (hok : l.forM (loadEntry r part) c = (.ok (), c')) :
    ∀ entry ∈ l, ∀ p ∈ references part entry, (c.denoted r p).isSome = true :=
  Action.forM_all (P := fun c₁ => Lockstep r c₁ ∧ c₁.denoted r = c.denoted r)
    (fun entry he {c₁ c₂} hc hrun => by
      obtain ⟨h₁, hdenoted⟩ := hc
      have hclean := hclean entry he
      refine ⟨⟨(loadEntry_ok h₁ hclean hrun).lockstep,
        (loadEntry_denoted h₁ hclean hpart hrun).trans hdenoted⟩, fun p hp => ?_⟩
      rw [← hdenoted, h₁.isSome_denoted_iff]
      exact ((loadEntry_succeeds_iff h₁ hclean).1 ⟨_, _, hrun⟩).2 p hp) ⟨h, rfl⟩ hok

/-- A section that describes namespaces or methods writes nothing. -/
theorem loadSection_describing (h : Lockstep r c) (hclean : ∀ entry ∈ l, Clean r part entry)
    (hpart : part = .namespaces ∨ part = .methods)
    (hok : l.forM (loadEntry r part) c = (.ok (), c')) :
    Lockstep r c' ∧ ∀ p, c'.ledgerAt r p = c.ledgerAt r p :=
  Action.forM_keeps (P := fun c₁ => Lockstep r c₁ ∧ ∀ p, c₁.ledgerAt r p = c.ledgerAt r p)
    (fun entry he {c₁ c₂} hc hrun => by
      refine ⟨(loadEntry_ok hc.1 (hclean entry he) hrun).lockstep, fun p => ?_⟩
      rw [loadEntry_enters hc.1 (hclean entry he) hrun, ← hc.2]
      rcases hpart with rfl | rfl <;> exact ite_self _) ⟨h, fun _ => rfl⟩ hok

/-! ### Manifests -/

/-- The catalog when the turn of a section has come: the sections before it are loaded. -/
def turn (r : Registry) (data : Value) (part : Part) (c : Catalog) : Catalog :=
  ((Part.all.takeWhile (· ≠ part)).forM (fun part =>
    (entriesIn data part).forM (loadEntry r part)) c).2

/-- The tables of the namespaces are those of before, with what the attributes and the aliases of a
manifest write into them.  A path means what it denotes when the turn of the section has come. -/
structure Entered (r : Registry) (data : Value) (c c' : Catalog) : Prop where
  lockstep : Lockstep r c'
  ledgerAt : ∀ p, c'.ledgerAt r p =
    (about .aliases p (entriesIn data .aliases)).foldl
      (fun t entry => t.enter ((turn r data .aliases c).denoted r) entry .aliases)
      ((about .attributes p (entriesIn data .attributes)).foldl
        (fun t entry => t.enter ((turn r data .attributes c).denoted r) entry .attributes)
        (c.ledgerAt r p))
  refers : ∀ part, part = .attributes ∨ part = .aliases → ∀ entry ∈ entriesIn data part,
    ∀ p ∈ references part entry, ((turn r data part c).denoted r p).isSome = true

/-- A manifest is loaded section by section. -/
theorem load_sections (hok : load r data c = (.ok (), c')) : ∃ c₁ c₂ c₃ c₄,
    (entriesIn data .namespaces).forM (loadEntry r .namespaces) c = (.ok (), c₁) ∧
    (entriesIn data .methods).forM (loadEntry r .methods) c₁ = (.ok (), c₂) ∧
    (entriesIn data .attributes).forM (loadEntry r .attributes) c₂ = (.ok (), c₃) ∧
    (entriesIn data .aliases).forM (loadEntry r .aliases) c₃ = (.ok (), c₄) ∧
    turn r data .attributes c = c₂ ∧ turn r data .aliases c = c₃ ∧
    c' = c₄.note r (.loaded (c₄.entries r).size) := by
  obtain ⟨-, c₄, hrun, rfl⟩ := load_eq_ok_iff.1 hok
  rw [forM_rows] at hrun
  let f : Part → Action Unit := fun part => (entriesIn data part).forM (loadEntry r part)
  obtain ⟨_, c₁, hnamespaces, h₁⟩ := Action.bind_eq_ok
    (show (f .namespaces >>= fun _ => [Part.methods, .attributes, .aliases].forM f) c = _ from hrun)
  obtain ⟨_, c₂, hmethods, h₂⟩ := Action.bind_eq_ok
    (show (f .methods >>= fun _ => [Part.attributes, .aliases].forM f) c₁ = _ from h₁)
  obtain ⟨_, c₃, hattributes, h₃⟩ := Action.bind_eq_ok
    (show (f .attributes >>= fun _ => [Part.aliases].forM f) c₂ = _ from h₂)
  obtain ⟨_, _, haliases, hend⟩ := Action.bind_eq_ok
    (show (f .aliases >>= fun _ => pure ()) c₃ = _ from h₃)
  cases hend
  have hturn₂ : turn r data .attributes c = c₂ :=
    congrArg Prod.snd (show [Part.namespaces, .methods].forM f c = (.ok (), c₂) from
      (Action.bind_of_ok hnamespaces).trans (Action.bind_of_ok hmethods))
  have hturn₃ : turn r data .aliases c = c₃ :=
    congrArg Prod.snd (show [Part.namespaces, .methods, .attributes].forM f c = (.ok (), c₃) from
      (Action.bind_of_ok hnamespaces).trans
        ((Action.bind_of_ok hmethods).trans (Action.bind_of_ok hattributes)))
  exact ⟨c₁, c₂, c₃, c₄, hnamespaces, hmethods, hattributes, haliases, hturn₂, hturn₃, rfl⟩

/-- **The tables after an accepted manifest** are those that its entries write, one after the
other. -/
theorem load_enters (h : Lockstep r c)
    (hclean : ∀ part, ∀ entry ∈ entriesIn data part, Clean r part entry)
    (hok : load r data c = (.ok (), c')) : Entered r data c c' := by
  obtain ⟨c₁, c₂, c₃, c₄, hnamespaces, hmethods, hattributes, haliases, hturn₂, hturn₃, rfl⟩ :=
    load_sections hok
  obtain ⟨hl₁, he₁⟩ := loadSection_describing h (hclean _) (.inl rfl) hnamespaces
  obtain ⟨hl₂, he₂⟩ := loadSection_describing hl₁ (hclean _) (.inr rfl) hmethods
  obtain ⟨hl₃, -⟩ := loadSection_denoted hl₂ (hclean _) (by simp) hattributes
  obtain ⟨hl₄, -⟩ := loadSection_denoted hl₃ (hclean _) (by simp) haliases
  refine ⟨hl₄.retouch (.note c₄ r _ (c₄.root r)), fun p => ?_, ?_⟩
  · rw [hturn₂, hturn₃, ← he₁, ← he₂,
      ← loadSection_enters hl₂ (hclean _) (by simp) hattributes p]
    exact loadSection_enters hl₃ (hclean _) (by simp) haliases p
  · rintro part (rfl | rfl)
    · rw [hturn₂]
      exact loadSection_refers hl₂ (hclean _) (by simp) hattributes
    · rw [hturn₃]
      exact loadSection_refers hl₃ (hclean _) (by simp) haliases

/-- What a path denotes after an accepted manifest is what it denoted when the turn of the sections
that refer to methods had come. -/
theorem denoted_turn (h : Lockstep r c)
    (hclean : ∀ part, ∀ entry ∈ entriesIn data part, Clean r part entry)
    (hok : load r data c = (.ok (), c')) (hpart : part = .attributes ∨ part = .aliases) :
    (turn r data part c).denoted r = c'.denoted r := by
  obtain ⟨c₁, c₂, c₃, c₄, hnamespaces, hmethods, hattributes, haliases, hturn₂, hturn₃, rfl⟩ :=
    load_sections hok
  obtain ⟨hl₁, -⟩ := loadSection_describing h (hclean _) (.inl rfl) hnamespaces
  obtain ⟨hl₂, -⟩ := loadSection_describing hl₁ (hclean _) (.inr rfl) hmethods
  obtain ⟨hl₃, hd₃⟩ := loadSection_denoted hl₂ (hclean _) (by simp) hattributes
  obtain ⟨-, hd₄⟩ := loadSection_denoted hl₃ (hclean _) (by simp) haliases
  have hnote : (c₄.note r (.loaded (c₄.entries r).size)).denoted r = c₄.denoted r := rfl
  rcases hpart with rfl | rfl
  · rw [hturn₂, hnote, hd₄, hd₃]
  · rw [hturn₃, hnote, hd₄]

/-! ### New registries -/

/-- A method that is made between one catalog and another. -/
structure NewMethod (c c' : Catalog) (m : EntityId) : Prop where
  knows : c'.Knows m
  unknown : ¬ c.Knows m
  kind : (c'.entity m).kind = .method

/-- What is found below the root of a registry in step belongs to the registry. -/
theorem home_of_under (h : Lockstep r c) (hn : c.Under r n) : (c.entity n).home = r := by
  induction hn with
  | refl => exact h.opened.home_root
  | tail _ hm ih =>
      obtain ⟨⟨k, hslot⟩, -⟩ := hm
      exact h.owns (h.wellFormed.knows_slot hslot) (h.slotsHold.owner?_eq hslot) ih

section

variable {s : Session} (hs : s.Reachable) (config : Config)
  (hclean : ∀ part, ∀ entry ∈ entriesIn data part,
    Clean (s.catalog.openRegistry config).1 part entry)
  (hok : load (s.catalog.openRegistry config).1 data (s.catalog.openRegistry config).2 =
    (.ok (), c))
include hs hclean hok

theorem loadFresh_enters : Entered (s.catalog.openRegistry config).1 data
    (s.catalog.openRegistry config).2 c :=
  load_enters (Loaded.fresh hs config).lockstep hclean hok

/-- **The owner of a method that a manifest in a new registry describes has written down what the
entries about the owner say**, whatever scopes are given to methods afterwards. -/
theorem ledger_of_newMethod {m : EntityId} (hm : NewMethod (s.catalog.openRegistry config).2 c m)
    (calls : List (EntityId × Value)) :
    let r := (s.catalog.openRegistry config).1
    let denotedAt (part : Part) := (turn r data part (s.catalog.openRegistry config).2).denoted r
    let after := c.setScopes calls
    ∃ n, (after.entity m).owner? = some n ∧ after.ledger n =
      (about .aliases (after.path n) (entriesIn data .aliases)).foldl
        (fun t entry => t.enter (denotedAt .aliases) entry .aliases)
        ((about .attributes (after.path n) (entriesIn data .attributes)).foldl
          (fun t entry => t.enter (denotedAt .attributes) entry .attributes) {}) := by
  intro r denotedAt after
  have hlock := (Loaded.fresh hs config).lockstep
  have hmade : (c.entity m).home = r := by
    have hown := load_makes_own (e := m) data hlock.wellFormed hlock.opened
      fun n hn => home_of_under hlock hn
    rw [hok] at hown
    exact hown hm.knows hm.unknown
  have hentered := loadFresh_enters hs config hclean hok
  obtain ⟨n, ho, hledger⟩ := hentered.lockstep.owner_setScopes hm.knows hmade hm.kind calls
  exact ⟨n, ho, by rw [hledger, hentered.ledgerAt, ledgerAt_fresh]⟩

end

end Manifest

end DocCatalog
