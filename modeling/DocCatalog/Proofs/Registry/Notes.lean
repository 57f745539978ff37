/-
**What the namespaces of a registry have written down, by path.**

A namespace writes down attributes by scope and name, and aliases by the entities that are aliases.
For whoever reads a registry both are told by paths: at the path of a namespace, which attributes it
declares, and which paths are aliases of which names, in the order in which they were written.  As
the namespaces of a registry in step are all registered, quiet work does not change what is read,
and writing in one namespace changes it at the path of this namespace only.

Main definitions:

* `Notes`: what is written down, by paths;
* `Catalog.ledgerAt`, `Catalog.notes`: the same, read off a catalog;
* `Catalog.AliasesHeld`: all that is written down as an alias is a registered method.

Main results:

* `Catalog.Lockstep.notes_eq_of_quiet`: **quiet work leaves the notes as they are**;
* `Catalog.Lockstep.notes_addAttribute`, `Catalog.Lockstep.notes_addAlias`: what is written down is
  read at the path of its namespace.
-/

import DocCatalog.Proofs.Catalog.Ledger
import DocCatalog.Proofs.Registry.Namespaces

set_option autoImplicit false

namespace DocCatalog

/-- A map that tells a key from all others commutes with writing at the key. -/
theorem OrderedTable.map_write {κ κ' α : Type} [DecidableEq κ] [DecidableEq κ'] (f : κ → κ')
    (k : κ) (v : α) (l : List (κ × α)) (h : ∀ p ∈ l, f p.1 = f k → p.1 = k) :
    (write k v l).map (fun p => (f p.1, p.2)) = write (f k) v (l.map fun p => (f p.1, p.2)) := by
  induction l with
  | nil => rfl
  | cons p rest ih =>
      by_cases hp : p.1 = k
      · simp [write, hp]
      · have hf : f p.1 ≠ f k := fun he => hp (h p (by simp) he)
        have hrest := ih fun q hq => h q (by simp [hq])
        simp [write, hp, hf, hrest]

/-! ### Notes -/

/-- What the namespaces of a registry have written down, by their paths. -/
structure Notes where
  /-- Whether a namespace declares an attribute of a scope and a name. -/
  declares : String → Scope → String → Bool
  /-- The paths that a namespace knows as aliases, each with the name that it is an alias of. -/
  aliases : String → List (Option String × String)

namespace Notes

/-- Nothing is written down. -/
def blank : Notes := ⟨fun _ _ _ => false, fun _ => []⟩

/-- The notes with an attribute at a path. -/
def addAttribute (w : Notes) (path : String) (scope : Scope) (name : String) : Notes :=
  { w with declares := fun p s m => decide (path = p ∧ scope = s ∧ name = m) || w.declares p s m }

/-- The notes with an alias at a path. -/
def addAlias (w : Notes) (path target name : String) : Notes :=
  { w with aliases := fun p =>
      if path = p then OrderedTable.write (some target) name (w.aliases p) else w.aliases p }

/-- Whether some namespace knows a path as an alias. -/
def IsAlias (w : Notes) (target : String) : Prop := ∃ p name, (some target, name) ∈ w.aliases p

end Notes

/-- Whether an attribute is among the tables of a namespace. -/
def Tables.declares (t : Tables) (s : Scope) (name : String) : Bool :=
  (t.attributes? s).any fun table => (ValueTable.find? table (.text name)).isSome

namespace Catalog

variable {c c' : Catalog} {r : Registry} {e n : EntityId} {p path : String}

/-- What the namespace at a path has written down, the root's being at the empty path. -/
def ledgerAt (c : Catalog) (r : Registry) (p : String) : Tables :=
  ((c.lookup? r p).map c.ledger).getD {}

/-- The aliases of some tables by their paths. -/
def aliasPaths (c : Catalog) (t : Tables) : List (Option String × String) :=
  t.aliases.toList.map fun a => (a.1.map c.path, a.2)

/-- What the namespaces of a registry have written down. -/
def notes (c : Catalog) (r : Registry) : Notes :=
  ⟨fun p => (c.ledgerAt r p).declares, fun p => c.aliasPaths (c.ledgerAt r p)⟩

theorem declares_notes (c : Catalog) (r : Registry) (p : String) :
    (c.notes r).declares p = (c.ledgerAt r p).declares := rfl

theorem aliases_notes (c : Catalog) (r : Registry) (p : String) :
    (c.notes r).aliases p = c.aliasPaths (c.ledgerAt r p) := rfl

/-- All that is written down as an alias is a registered method. -/
def AliasesHeld (r : Registry) (c : Catalog) : Prop :=
  ∀ p a, a ∈ (c.ledgerAt r p).aliases.keys →
    ∃ e, a = some e ∧ c.isRegistered r e = true ∧ (c.entity e).kind = .method

/-! ### Namespaces at their paths -/

theorem get?_of_isRegistered (h : c.isRegistered r e = true) :
    (c.entries r).get? (c.path e) = some e := by simpa [isRegistered] using h

/-- A namespace that stands at a path is found there. -/
theorem Lockstep.lookup?_of_stands (h : Lockstep r c) (hn : Stands r c n path) :
    c.lookup? r path = some n := by
  rw [← hn.path_eq, lookup?]
  rcases hn.registered h with hreg | hroot
  · have hget := get?_of_isRegistered hreg
    have hne : c.path n ≠ "" := by
      intro hp
      rw [hp, h.vacant] at hget
      cases hget
    rw [if_neg hne, hget]
  · have hspace : (c.entity (c.root r)).isSpace = true := isSpace_iff.2 (.inr h.root_kind)
    rw [if_pos hroot, h.space_unique h.opened.knows_root hn.knows hspace hn.isSpace
      h.opened.home_root hn.home (h.path_root.trans hroot.symm)]

/-- A namespace that is found at a path stands there. -/
theorem Lockstep.stands_of_lookup? (h : Lockstep r c) (hl : c.lookup? r path = some n)
    (hs : (c.entity n).isSpace = true) : Stands r c n path := by
  unfold lookup? at hl
  split at hl
  · next hroot =>
      obtain rfl := Option.some.inj hl
      exact ⟨h.opened.knows_root, hs, h.opened.home_root, h.path_root.trans hroot.symm⟩
  · exact ⟨h.wellFormed.knows_entry hl, hs, h.keysHold.home h.wellFormed h.opened hl,
      h.keysHold.path_eq hl⟩

theorem Lockstep.ledgerAt_of_stands (h : Lockstep r c) (hn : Stands r c n path) :
    c.ledgerAt r path = c.ledger n := by
  rw [ledgerAt, h.lookup?_of_stands hn]
  rfl

/-- What is held is found at its path. -/
theorem Lockstep.ledgerAt_of_get? (h : Lockstep r c) (hget : (c.entries r).get? p = some e) :
    c.ledgerAt r p = c.ledger e := by
  have hp : p ≠ "" := by
    rintro rfl
    rw [h.vacant] at hget
    cases hget
  simp [ledgerAt, lookup?, hp, hget]

theorem Lockstep.ledgerAt_of_not_stands (h : Lockstep r c) (hno : ∀ n, ¬ Stands r c n path) :
    c.ledgerAt r path = {} := by
  rw [ledgerAt]
  cases hl : c.lookup? r path with
  | none => rfl
  | some n =>
      have hs : (c.entity n).isSpace = false :=
        Bool.eq_false_iff.2 fun hs => hno n (h.stands_of_lookup? hl hs)
      exact Entity.ledger_eq_empty hs

/-! ### Quiet work -/

theorem Stands.quiet (hn : Stands r c n path) (hq : Quiet c c') : Stands r c' n path where
  knows := hq.knows hn.knows
  isSpace := (Entity.isSpace_eq_of_settled (hq.settled hn.knows)).trans hn.isSpace
  home := (Entity.home_eq_of_settled (hq.settled hn.knows)).trans hn.home
  path_eq := (hq.path hn.knows).trans hn.path_eq

theorem Stands.of_quiet (hn : Stands r c' n path) (hq : Quiet c c') (hk : c.Knows n) :
    Stands r c n path where
  knows := hk
  isSpace := (Entity.isSpace_eq_of_settled (hq.settled hk)).symm.trans hn.isSpace
  home := (Entity.home_eq_of_settled (hq.settled hk)).symm.trans hn.home
  path_eq := (hq.path hk).symm.trans hn.path_eq

/-- Quiet work changes what is written down at no path: namespaces stay where they are, and new ones
have written nothing down. -/
theorem Lockstep.ledgerAt_eq_of_quiet (h : Lockstep r c) (h' : Lockstep r c') (hq : Quiet c c')
    (p : String) : c'.ledgerAt r p = c.ledgerAt r p := by
  by_cases hold : ∃ n, Stands r c n p
  · obtain ⟨n, hn⟩ := hold
    rw [h.ledgerAt_of_stands hn, h'.ledgerAt_of_stands (hn.quiet hq), hq.ledger]
  · have hno : ∀ n, ¬ Stands r c n p := fun n hn => hold ⟨n, hn⟩
    rw [h.ledgerAt_of_not_stands hno]
    by_cases hnew : ∃ n, Stands r c' n p
    · obtain ⟨n, hn⟩ := hnew
      rw [h'.ledgerAt_of_stands hn, hq.ledger]
      exact ledger_of_not_knows fun hk => hno n (hn.of_quiet hq hk)
    · exact h'.ledgerAt_of_not_stands fun n hn => hnew ⟨n, hn⟩

/-- What is written down as an alias is known. -/
theorem AliasesHeld.knows (ha : AliasesHeld r c) (h : Lockstep r c)
    (hmem : some e ∈ (c.ledgerAt r p).aliases.keys) : c.Knows e := by
  obtain ⟨e', he', hreg, -⟩ := ha p _ hmem
  obtain rfl := Option.some.inj he'
  exact h.wellFormed.knows_entry (get?_of_isRegistered hreg)

/-- Aliases whose paths stay have the same paths as before. -/
theorem AliasesHeld.aliasPaths_eq (ha : AliasesHeld r c)
    (hp : ∀ e, c.isRegistered r e = true → c'.path e = c.path e) (p : String) :
    c'.aliasPaths (c.ledgerAt r p) = c.aliasPaths (c.ledgerAt r p) := by
  refine List.map_congr_left fun a hmem => ?_
  obtain ⟨e, he, hreg, -⟩ := ha p a.1 (List.mem_map.2 ⟨a, hmem, rfl⟩)
  simp [he, hp e hreg]

/-- **Quiet work leaves the notes as they are.** -/
theorem Lockstep.notes_eq_of_quiet (h : Lockstep r c) (h' : Lockstep r c') (hq : Quiet c c')
    (ha : AliasesHeld r c) : c'.notes r = c.notes r := by
  have hledger := h.ledgerAt_eq_of_quiet h' hq
  have hpath : ∀ e, c.isRegistered r e = true → c'.path e = c.path e := fun e hreg =>
    hq.path (h.wellFormed.knows_entry (get?_of_isRegistered hreg))
  simp only [notes, hledger, ha.aliasPaths_eq hpath]

/-- Quiet work that takes the place of no alias leaves all aliases registered. -/
theorem AliasesHeld.quiet (ha : AliasesHeld r c) (h : Lockstep r c) (h' : Lockstep r c')
    (hq : Quiet c c') (hkeep : ∀ e p, some e ∈ (c.ledgerAt r p).aliases.keys →
      (c.entries r).get? (c.path e) = some e → (c'.entries r).get? (c.path e) = some e) :
    AliasesHeld r c' := by
  intro p a hmem
  rw [h.ledgerAt_eq_of_quiet h' hq] at hmem
  obtain ⟨e, rfl, hreg, hkind⟩ := ha p a hmem
  have hk := ha.knows h hmem
  refine ⟨e, rfl, ?_, (Entity.kind_eq_of_settled (hq.settled hk)).trans hkind⟩
  rw [isRegistered, decide_eq_true_eq, hq.path hk]
  exact hkeep e p hmem (get?_of_isRegistered hreg)

theorem isAlias_of_mem_keys (hmem : some e ∈ (c.ledgerAt r p).aliases.keys) :
    (c.notes r).IsAlias (c.path e) := by
  obtain ⟨a, ha, he⟩ := List.mem_map.1 hmem
  exact ⟨p, a.2, List.mem_map.2 ⟨a, ha, by rw [he]; rfl⟩⟩

/-- What is known as an alias is the path of a registered method. -/
theorem AliasesHeld.view_of_isAlias (ha : AliasesHeld r c) {target : String}
    (h : (c.notes r).IsAlias target) : ∃ f, c.view r target = some f ∧ f.kind = .method := by
  obtain ⟨p, name, hmem⟩ := h
  obtain ⟨a, ha', hpath⟩ := List.mem_map.1 hmem
  obtain ⟨e, he, hreg, hkind⟩ := ha p a.1 (List.mem_map.2 ⟨a, ha', rfl⟩)
  rw [he] at hpath
  obtain rfl : c.path e = target := Option.some.inj (congrArg Prod.fst hpath)
  exact ⟨_, view_path hreg, hkind⟩

/-! ### Writing something down -/

section

variable {t : Tables} (h : Lockstep r c) (hn : Stands r c n path) (ht : Retouches n c c')
  (hl : ∀ m, c'.ledger m = if n = m then t else c.ledger m)
include h hn ht hl

/-- What is written down in one namespace is read at its path and nowhere else. -/
theorem Lockstep.ledgerAt_write (p : String) :
    c'.ledgerAt r p = if path = p then t else c.ledgerAt r p := by
  have hlookup : c'.lookup? r p = c.lookup? r p := by rw [lookup?, lookup?, ht.root, ht.entries]
  rw [ledgerAt, hlookup]
  by_cases hp : path = p
  · subst hp
    simp [h.lookup?_of_stands hn, hl]
  · rw [if_neg hp, ledgerAt]
    cases hm : c.lookup? r p with
    | none => rfl
    | some m =>
        have hne : n ≠ m := by
          rintro rfl
          exact hp (hn.path_eq.symm.trans (h.stands_of_lookup? hm hn.isSpace).path_eq)
        simp [hl, hne]

/-- All aliases are registered if all that are written down now are. -/
theorem AliasesHeld.write (ha : AliasesHeld r c) (hkeys : ∀ a ∈ t.aliases.keys,
      a ∈ (c.ledger n).aliases.keys ∨
        ∃ e, a = some e ∧ c.isRegistered r e = true ∧ (c.entity e).kind = .method) :
    AliasesHeld r c' := by
  -- what is registered stays registered
  have hkept : ∀ {a}, (∃ e, a = some e ∧ c.isRegistered r e = true ∧ (c.entity e).kind = .method) →
      ∃ e, a = some e ∧ c'.isRegistered r e = true ∧ (c'.entity e).kind = .method := by
    rintro a ⟨e, rfl, hreg, hkind⟩
    refine ⟨e, rfl, ?_, (Entity.kind_eq_of_settled (ht.settled e)).trans hkind⟩
    rw [isRegistered, ht.entries, ht.path]
    exact hreg
  intro p a hmem
  rw [h.ledgerAt_write hn ht hl] at hmem
  split at hmem
  · next hp =>
      rcases hkeys a hmem with hold | hnew
      · rw [← h.ledgerAt_of_stands hn] at hold
        exact hkept (ha path a hold)
      · exact hkept hnew
  · exact hkept (ha p a hmem)

/-- What is written down in one namespace changes the notes at its path and nowhere else. -/
theorem Lockstep.notes_write : c'.notes r =
    ⟨fun p => if path = p then t.declares else (c.notes r).declares p,
      fun p => if path = p then c.aliasPaths t else (c.notes r).aliases p⟩ := by
  have hpath : c'.path = c.path := funext ht.path
  rw [notes, Notes.mk.injEq]
  constructor <;> funext p <;> rw [h.ledgerAt_write hn ht hl p]
  · split <;> rfl
  · simp only [aliasPaths, hpath]
    split <;> rfl

end

theorem ledger_updateTables (n m : EntityId) (f : Tables → Tables)
    (hs : (c.entity n).isSpace = true) :
    (c.updateTables n f).ledger m = if n = m then (f (c.tables n)).ledger else c.ledger m := by
  rw [ledger_eq, tables_updateTables c n m f hs]
  split <;> rfl

theorem isSome_find?_extend (table : AttributeTable) (name name' : String)
    (read write : Option EntityId) :
    (ValueTable.find? (table.extend (.text name) read write) (.text name')).isSome =
      (decide (name = name') || (ValueTable.find? table (.text name')).isSome) := by
  rw [AttributeTable.extend, ValueTable.find?_put]
  by_cases hname : name = name' <;> simp [Value.agrees, hname]

/-- An attribute that is written down is declared, and so are all that were before. -/
theorem declares_setAttributes (t : Tables) (s s' : Scope) (name name' : String)
    (read write : Option EntityId) :
    (t.setAttributes s (some (((t.attributes? s).getD ∅).extend (.text name) read write))).declares
      s' name' = (decide (s = s' ∧ name = name') || t.declares s' name') := by
  by_cases hs : s = s'
  · subst hs
    have hempty : ValueTable.find? (∅ : AttributeTable) (.text name') = none := rfl
    cases hat : t.attributes? s <;>
      simp [Tables.declares, hat, isSome_find?_extend, hempty]
  · simp [Tables.declares, hs]

/-- An attribute that a namespace has written down is read at its path, whether its table was there
before or had been dropped. -/
theorem Lockstep.notes_addAttribute (h : Lockstep r c) (hn : Stands r c n path)
    (ht : Retouches n c c') (ha : AliasesHeld r c) {s : Scope} {name : String}
    {read write : Option EntityId}
    (hl : ∀ m, c'.ledger m = if n = m then (c.ledger n).setAttributes s
      (some ((((c.ledger n).attributes? s).getD ∅).extend (.text name) read write))
      else c.ledger m) :
    c'.notes r = (c.notes r).addAttribute path s name ∧ AliasesHeld r c' := by
  refine ⟨?_, ha.write h hn ht hl fun a hmem => .inl (by simpa using hmem)⟩
  rw [h.notes_write hn ht hl, Notes.addAttribute, Notes.mk.injEq]
  constructor
  · funext p s' name'
    by_cases hp : path = p
    · subst hp
      rw [if_pos rfl, declares_setAttributes, declares_notes, h.ledgerAt_of_stands hn]
      simp
    · simp [hp]
  · funext p
    split
    · next hp =>
        rw [aliasPaths, Tables.aliases_setAttributes, ← h.ledgerAt_of_stands hn, hp]
        rfl
    · rfl

/-- An alias that a namespace has written down is read at its path, and takes the place of what was
written down for the same method before. -/
theorem Lockstep.notes_addAlias (h : Lockstep r c) (hn : Stands r c n path)
    (ht : Retouches n c c') (ha : AliasesHeld r c) {m : EntityId} {name : String}
    (hreg : c.isRegistered r m = true) (hkind : (c.entity m).kind = .method)
    (hl : ∀ m', c'.ledger m' = if n = m'
      then { c.ledger n with aliases := (c.ledger n).aliases.insert (some m) name }
      else c.ledger m') :
    c'.notes r = (c.notes r).addAlias path (c.path m) name ∧ AliasesHeld r c' := by
  refine ⟨?_, ha.write h hn ht hl fun a hmem => ?_⟩
  · rw [h.notes_write hn ht hl, Notes.addAlias, Notes.mk.injEq]
    constructor <;> funext p <;> split
    · next hp =>
        rw [← hp, declares_notes, h.ledgerAt_of_stands hn]
        rfl
    · rfl
    · next hp =>
        subst hp
        rw [aliases_notes, h.ledgerAt_of_stands hn]
        -- no other registered entity has the path of the method
        refine OrderedTable.map_write (Option.map c.path) (some m) name _ fun a hmem heq => ?_
        have hkey : a.1 ∈ (c.ledgerAt r path).aliases.keys := by
          rw [h.ledgerAt_of_stands hn]
          exact List.mem_map.2 ⟨a, hmem, rfl⟩
        obtain ⟨e, he, hreg', -⟩ := ha path a.1 hkey
        rw [he, Option.map_some, Option.map_some, Option.some.injEq] at heq
        have hget := get?_of_isRegistered hreg'
        rw [heq, get?_of_isRegistered hreg] at hget
        rw [he, Option.some.inj hget]
    · rfl
  · rw [OrderedTable.keys_insert] at hmem
    split at hmem
    · exact .inl hmem
    · rcases List.mem_append.1 hmem with hold | hnew
      · exact .inl hold
      · exact .inr ⟨m, List.mem_singleton.1 hnew, hreg, hkind⟩

end Catalog

end DocCatalog
