/-
**The two places of an entity.**

A registered entity has a place in its registry, under its path, and one in the list of its
namespace, under its key.  Registering takes both, whoever is there; deleting gives up both, and
gives up nothing if the first is vacant or another's.  What is said here is what these two writes
leave alone: everything else, the order of the other entries included.  That nothing of a deleted
entity is left in any list is not the work of the deletion, which strikes off one key only, but of
the lists, in which an entity has no key but the one that it has now.

Main definitions:

* `Catalog.Rearranged`: a catalog that differs from another in places of one registry only;
* `Catalog.TakesPlaces`, `Catalog.GivesUpPlaces`: an entity takes its two places, or gives them up.

Main results:

* `Catalog.takesPlaces_enter`, `Catalog.enter_enter`: registering, once and again;
* `Catalog.givesUpPlaces_delete`, `Catalog.delete_delete`: deleting, once and again;
* `Session.places_taken_and_given_up`: **in every session registering and deleting write these two
  places and nothing else**.
-/

import DocCatalog.Proofs.Catalog.Ledger
import DocCatalog.Proofs.Catalog.Membership
import DocCatalog.Proofs.Registry.Commuting
import DocCatalog.Proofs.Registry.Namespaces

set_option autoImplicit false

namespace DocCatalog

/-! ### Tables that are written over -/

namespace OrderedTable

theorem ext_toList {κ α : Type} {t t' : OrderedTable κ α} (h : t.toList = t'.toList) : t = t' := by
  cases t
  cases t'
  cases h
  rfl

variable {κ α : Type} [DecidableEq κ] {t : OrderedTable κ α} {k : κ} {v : α}

/-- Writing what is there changes nothing. -/
theorem insert_eq_self (h : t.get? k = some v) : t.insert k v = t := by
  have hwrite : ∀ l : List (κ × α), (l.find? fun p => p.1 = k).map Prod.snd = some v →
      write k v l = l := by
    intro l
    induction l with
    | nil => exact fun h => nomatch h
    | cons p rest ih =>
        intro h
        by_cases hp : p.1 = k
        · have hv : p.2 = v := by simpa [List.find?_cons, hp] using h
          rw [write, if_pos hp, ← hp, ← hv]
        · rw [write, if_neg hp, ih (by simpa [List.find?_cons, hp] using h)]
  exact ext_toList (hwrite t.toList h)

/-- What is erased is the one entry of the key. -/
theorem toList_erase_of_get? [DecidableEq α] (h : t.get? k = some v) :
    (t.erase k).toList = t.toList.erase (k, v) := by
  have hnodup : t.toList.Nodup := t.nodup.of_map
  rw [hnodup.erase_eq_filter]
  refine List.filter_congr fun p hp => ?_
  -- an entry of the key is the one that is read there
  have hiff : p.1 = k ↔ p = (k, v) := by
    constructor
    · rintro rfl
      have hget : t.get? p.1 = some p.2 := (t.get?_eq_some_iff _ _).2 hp
      exact Prod.ext rfl (Option.some.inj (hget.symm.trans h))
    · rintro rfl
      rfl
  rw [Bool.eq_iff_iff]
  simp [hiff]

/-- A value with one key is erased along with it. -/
theorem toList_erase_eq_filter [DecidableEq α] (h : ∀ k', t.get? k' = some v ↔ k' = k) :
    (t.erase k).toList = t.toList.filter fun p => p.2 ≠ v := by
  refine List.filter_congr fun p hp => ?_
  have hget : t.get? p.1 = some p.2 := (t.get?_eq_some_iff _ _).2 hp
  have hiff : p.1 = k ↔ p.2 = v := by
    rw [← h, hget, Option.some.injEq]
  simp [hiff]

/-- A value without a key is nowhere to be erased. -/
theorem toList_eq_filter [DecidableEq α] (h : ∀ k, t.get? k ≠ some v) :
    t.toList = t.toList.filter fun p => p.2 ≠ v := by
  refine (List.filter_eq_self.2 fun p hp => ?_).symm
  have hne : p.2 ≠ v := by
    rintro rfl
    exact h p.1 ((t.get?_eq_some_iff _ _).2 hp)
  simpa using hne

end OrderedTable

namespace Catalog

variable {c c' : Catalog} {r : Registry} {e n : EntityId}

/-! ### Writes that write what is there -/

theorem modify_eq_self {α : Type} {a : Array α} {i : Nat} {f : α → α}
    (h : ∀ x, a[i]? = some x → f x = x) : a.modify i f = a := by
  refine Array.ext_getElem? fun j => ?_
  rw [Array.getElem?_modify]
  split
  · next hij =>
      subst hij
      cases hx : a[i]? with
      | none => rfl
      | some x => exact congrArg some (h x hx)
  · rfl

theorem update_eq_self {f : Entity → Entity} (h : f (c.entity e) = c.entity e) :
    c.update e f = c := by
  have hmodify : c.entities.modify e.index f = c.entities := modify_eq_self fun x hx => by
    simpa [entity, hx] using h
  rw [update, hmodify]

theorem updateEntries_eq_self {f : OrderedTable String EntityId → OrderedTable String EntityId}
    (h : f (c.entries r) = c.entries r) : c.updateEntries r f = c := by
  have hmodify : c.stock.modify r.index (fun d => { d with entries := f d.entries }) = c.stock :=
    modify_eq_self fun x hx => by
      have hentries : f x.entries = x.entries := by simpa [entries, holdings, hx] using h
      rw [hentries]
  rw [updateEntries, updateHoldings, hmodify]

theorem put_eq_self (h : c.isRegistered r e = true) : c.put r e = c :=
  updateEntries_eq_self (OrderedTable.insert_eq_self (by simpa [isRegistered] using h))

/-- An entity that its owner lists is listed again without a change. -/
theorem adoptByOwner_eq_self
    (h : ∀ n, (c.entity e).owner? = some n → (c.slots n).get? (c.entity e).memberKey = some e) :
    c.adoptByOwner e = c := by
  unfold adoptByOwner
  split
  · next n ho =>
      refine update_eq_self ?_
      have hslot := h n ho
      cases hf : (c.entity n).form with
      | space isRoot t =>
          have hmembers : t.members.get? (c.entity e).memberKey = some e := by
            simpa [slots, Entity.slots, Entity.tables?, hf] using hslot
          rw [Entity.updateTables, hf]
          simp only [OrderedTable.insert_eq_self hmembers, ← hf]
      | _ => simp [Entity.updateTables, hf]
  · rfl

/-! ### Rearranged catalogs -/

/-- A catalog that differs from another in the entries of one registry, in member lists and in what
was recorded, and in nothing else. -/
structure Rearranged (r : Registry) (c c' : Catalog) : Prop where
  size : c'.entities.size = c.entities.size
  bare : ∀ x, (c'.entity x).bare = (c.entity x).bare
  ledger : ∀ x, c'.ledger x = c.ledger x
  root : ∀ r', c'.root r' = c.root r'
  entries : ∀ r', r'.index ≠ r.index → c'.entries r' = c.entries r'

namespace Rearranged

theorem identity (h : Rearranged r c c') (x : EntityId) :
    (c'.entity x).identity = (c.entity x).identity :=
  Entity.identity_eq_of_bare (h.bare x)

theorem path (h : Rearranged r c c') (x : EntityId) : c'.path x = c.path x :=
  Entity.path_eq_of_identity (h.identity x)

theorem memberKey (h : Rearranged r c c') (x : EntityId) :
    (c'.entity x).memberKey = (c.entity x).memberKey :=
  Entity.memberKey_eq_of_identity (h.identity x)

theorem home (h : Rearranged r c c') (x : EntityId) : (c'.entity x).home = (c.entity x).home :=
  Entity.home_eq_of_settled (Entity.settled_eq_of_identity (h.identity x))

theorem owner? (h : Rearranged r c c') (x : EntityId) :
    (c'.entity x).owner? = (c.entity x).owner? :=
  Entity.owner?_eq_of_settled (Entity.settled_eq_of_identity (h.identity x))

end Rearranged

theorem rearranged_enter (c : Catalog) (r : Registry) (e : EntityId) :
    Rearranged r c (c.enter r e) where
  size := c.size_enter r e
  bare := c.bare_enter r e
  ledger := (Quiet.enter c r e).ledger
  root r' := by
    have hs : (c.enter r e).stock = (c.put r e).stock := (c.put r e).stock_adoptByOwner e
    rw [root_congr hs, put, root_updateEntries]
  entries r' hi := by
    have hs : (c.enter r e).stock = (c.put r e).stock := (c.put r e).stock_adoptByOwner e
    rw [entries_congr hs, put, c.entries_updateEntries_of_ne _ hi.symm]

theorem ledger_dismissByOwner (c : Catalog) (e x : EntityId) :
    (c.dismissByOwner e).ledger x = c.ledger x := by
  simp only [dismissByOwner, dismiss]
  split
  · split
    · exact entity_update_congr Entity.ledger c _ x _ (Entity.ledger_updateTables fun _ => rfl)
    · rfl
  · rfl

theorem rearranged_delete (hreg : c.isRegistered r e = true) :
    Rearranged r c (c.delete r e) where
  size := size_delete hreg
  bare x := by
    rw [delete_eq hreg]
    exact bare_dismissByOwner _ e x
  ledger x := by
    rw [delete_eq hreg]
    exact ledger_dismissByOwner (c.updateEntries r fun t => t.erase (c.path e)) e x
  root r' := by rw [root_congr (stock_delete hreg), root_updateEntries]
  entries r' hi := by
    rw [entries_congr (stock_delete hreg), c.entries_updateEntries_of_ne _ hi.symm]

/-! ### Registering -/

/-- An entity takes its place in its registry and its place in the list of its namespace, and
nothing else changes. -/
structure TakesPlaces (r : Registry) (e : EntityId) (c c' : Catalog) : Prop where
  rest : Rearranged r c c'
  entry : (c'.entries r).get? (c.path e) = some e
  entries : ∀ p, p ≠ c.path e → (c'.entries r).get? p = (c.entries r).get? p
  /-- The other entries keep their order, and a path that was taken keeps its place in it. -/
  keys : (c'.entries r).keys = if c.path e ∈ (c.entries r).keys then (c.entries r).keys
    else (c.entries r).keys ++ [c.path e]
  slot : ∀ n, (c.entity e).owner? = some n → (c'.slots n).get? (c.entity e).memberKey = some e
  slots : ∀ n k, ¬ ((c.entity e).owner? = some n ∧ (c.entity e).memberKey = k) →
    (c'.slots n).get? k = (c.slots n).get? k

section

variable (hc : c.WellFormed) (hk : c.Knows e) (hh : (c.entity e).home = r)
include hc hk hh

theorem takesPlaces_enter : TakesPlaces r e c (c.enter r e) := by
  have hlt : r.index < c.stock.size := hh ▸ (hc.opened_home hk).lt
  have hs : (c.enter r e).stock = (c.put r e).stock := (c.put r e).stock_adoptByOwner e
  have hspace : ∀ n, (c.entity e).owner? = some n → (c.entity n).isSpace = true :=
    fun n ho => (hc.knows_owner hk ho).2
  refine ⟨c.rearranged_enter r e, ?_, fun p hp => ?_, ?_, fun n ho => ?_, fun n k hne => ?_⟩
  · rw [get?_entries_enter hlt, if_pos rfl]
  · rw [get?_entries_enter hlt, if_neg hp.symm]
  · rw [entries_congr hs, put, entries_updateEntries c r _ hlt, if_pos rfl,
      OrderedTable.keys_insert]
  · rw [get?_slots_enter r n _ hspace, if_pos ⟨ho, rfl⟩]
  · rw [get?_slots_enter r n k hspace, if_neg hne]

theorem isRegistered_enter_self : (c.enter r e).isRegistered r e = true := by
  have htaken := takesPlaces_enter hc hk hh
  rw [isRegistered, htaken.rest.path e, htaken.entry, decide_eq_true rfl]

/-- An entity that has its two places takes them again without a change. -/
theorem enter_enter : ((c.enter r e).enter r e).entities = (c.enter r e).entities ∧
    ((c.enter r e).enter r e).stock = (c.enter r e).stock := by
  have htaken := takesPlaces_enter hc hk hh
  have hput : (c.enter r e).put r e = c.enter r e := put_eq_self (isRegistered_enter_self hc hk hh)
  have hadopt : (c.enter r e).adoptByOwner e = c.enter r e := by
    refine adoptByOwner_eq_self fun n ho => ?_
    rw [htaken.rest.memberKey]
    exact htaken.slot n (by rwa [htaken.rest.owner?] at ho)
  -- the second time is recorded as the first was, and that is all
  obtain ⟨event, hagain⟩ : ∃ event, (c.enter r e).enter r e =
      (((c.enter r e).put r e).adoptByOwner e).note r event := ⟨_, rfl⟩
  rw [hagain, hput, hadopt]
  exact ⟨rfl, rfl⟩

end

/-! ### Deleting -/

/-- An entity gives up its place in a registry and whatever places it has in lists, and nothing else
changes. -/
structure GivesUpPlaces (r : Registry) (e : EntityId) (c c' : Catalog) : Prop where
  rest : Rearranged r c c'
  entries : (c'.entries r).toList = (c.entries r).toList.erase (c.path e, e)
  unlisted : ∀ n, e ∉ c'.members n
  slots : ∀ n, (c'.slots n).toList = (c.slots n).toList.filter fun p => p.2 ≠ e

/-- What is erased from a list is all that is there of the entity, for it has no other key. -/
theorem toList_slots_dismissByOwner (hs : c.SlotsHold) (e n : EntityId) :
    ((c.dismissByOwner e).slots n).toList = (c.slots n).toList.filter fun p => p.2 ≠ e := by
  by_cases hlisted : (c.entity e).owner? = some n ∧
      (c.slots n).get? (c.entity e).memberKey = some e
  · obtain ⟨ho, hslot⟩ := hlisted
    have hstruck : (c.dismissByOwner e).slots n = (c.slots n).erase (c.entity e).memberKey := by
      simp only [dismissByOwner, ho, slots_dismiss, hslot, and_self, if_true]
    rw [hstruck]
    refine OrderedTable.toList_erase_eq_filter fun k => ⟨fun h => (hs.memberKey_eq h).symm, ?_⟩
    rintro rfl
    exact hslot
  · have hleft : (c.dismissByOwner e).slots n = c.slots n := by
      unfold dismissByOwner
      split
      · next m ho =>
          rw [slots_dismiss, if_neg]
          rintro ⟨rfl, hslot⟩
          exact hlisted ⟨ho, hslot⟩
      · rfl
    rw [hleft]
    refine OrderedTable.toList_eq_filter fun k h => hlisted ⟨hs.owner?_eq h, ?_⟩
    rwa [hs.memberKey_eq h]

theorem givesUpPlaces_delete (hs : c.SlotsHold) (hreg : c.isRegistered r e = true) :
    GivesUpPlaces r e c (c.delete r e) := by
  have hget : (c.entries r).get? (c.path e) = some e := by simpa [isRegistered] using hreg
  have hlt : r.index < c.stock.size := by
    by_contra hlt
    rw [entries_eq_empty c hlt] at hget
    cases hget
  have hslots : ∀ n, ((c.delete r e).slots n).toList =
      (c.slots n).toList.filter fun p => p.2 ≠ e := by
    intro n
    rw [delete_eq hreg]
    exact toList_slots_dismissByOwner (c := c.updateEntries r fun t => t.erase (c.path e))
      ⟨hs.owner?_eq, hs.memberKey_eq⟩ e n
  refine ⟨rearranged_delete hreg, ?_, fun n hmem => ?_, hslots⟩
  · rw [entries_congr (stock_delete hreg), entries_updateEntries c r _ hlt, if_pos rfl,
      OrderedTable.toList_erase_of_get? hget]
  · obtain ⟨k, hk⟩ := mem_members.1 hmem
    have hpair := (OrderedTable.get?_eq_some_iff _ _ _).1 hk
    rw [hslots] at hpair
    simp at hpair

theorem isRegistered_delete (c : Catalog) (r : Registry) (e : EntityId) :
    (c.delete r e).isRegistered r e = false := by
  by_cases hreg : c.isRegistered r e = true
  · rw [isRegistered, (rearranged_delete hreg).path e, get?_entries_delete hreg, if_pos rfl]
    rfl
  · rw [delete, if_neg hreg]
    simpa using hreg

theorem delete_of_not_registered (hreg : c.isRegistered r e = false) : c.delete r e = c := by
  rw [delete, if_neg (by simp [hreg])]

/-- A deleted entity is deleted again without a change. -/
theorem delete_delete (c : Catalog) (r : Registry) (e : EntityId) :
    (c.delete r e).delete r e = c.delete r e :=
  delete_of_not_registered (c.isRegistered_delete r e)

end Catalog

/-! ### Sessions -/

namespace Session

open Catalog

variable {s : Session} {e : EntityId}

/-- **In every session registering and deleting write the two places of an entity and nothing
else.**  An entity that its own registry is given takes the places, whoever has them, and giving it
a second time changes nothing.  A registry, the entity's own or not, that holds the entity at its
path gives up that entry, and then the entity is in no list; a registry that does not leaves
everything as it is.  A deleted entity that is registered again has both places again. -/
theorem places_taken_and_given_up (h : s.Reachable) (hk : s.catalog.Knows e) :
    (∀ r, (s.catalog.entity e).home = r →
      ∃ once twice, register r e s.catalog = (.ok (), once) ∧ TakesPlaces r e s.catalog once ∧
        register r e once = (.ok (), twice) ∧
        twice.entities = once.entities ∧ twice.stock = once.stock) ∧
    (∀ r, (s.catalog.isRegistered r e = true →
        GivesUpPlaces r e s.catalog (s.catalog.delete r e)) ∧
      (s.catalog.isRegistered r e = false → s.catalog.delete r e = s.catalog) ∧
      (s.catalog.delete r e).delete r e = s.catalog.delete r e) ∧
    ∀ r, (s.catalog.entity e).home = r →
      ∃ c', register r e (s.catalog.delete r e) = (.ok (), c') ∧ c'.isRegistered r e = true ∧
        ∀ n, (s.catalog.entity e).owner? = some n →
          e ∈ c'.members n ∧ (c'.slots n).get? (s.catalog.entity e).memberKey = some e := by
  have hc := (Reachable.sound h).wellFormed
  refine ⟨?_, ?_, ?_⟩
  · intro r hh
    have htaken := takesPlaces_enter hc hk hh
    obtain ⟨hentities, hstock⟩ := enter_enter hc hk hh
    exact ⟨_, _, register_of_home hh, htaken,
      register_of_home ((htaken.rest.home e).trans hh), hentities, hstock⟩
  · intro r
    exact ⟨givesUpPlaces_delete (Reachable.slotsHold h), delete_of_not_registered,
      s.catalog.delete_delete r e⟩
  · intro r hh
    have hw : Writes s.catalog (s.catalog.delete r e) := s.catalog.writes_delete r e
    have hc' := hw.wellFormed hc
    have hk' := hw.later.knows hk
    have hh' : ((s.catalog.delete r e).entity e).home = r := (hw.later.home hk).trans hh
    have htaken := takesPlaces_enter hc' hk' hh'
    refine ⟨_, register_of_home hh', isRegistered_enter_self hc' hk' hh', fun n ho => ?_⟩
    have hslot := htaken.slot n (by rwa [hw.later.owner? hk])
    -- what was deleted has the key that it had
    have hkey : ((s.catalog.delete r e).entity e).memberKey =
        (s.catalog.entity e).memberKey := by
      by_cases hreg : s.catalog.isRegistered r e = true
      · exact (rearranged_delete hreg).memberKey e
      · rw [delete_of_not_registered (by simpa using hreg)]
    rw [hkey] at hslot
    exact ⟨mem_members.2 ⟨_, hslot⟩, hslot⟩

/-- A registered method whose slot a later one has taken: it takes the slot back when it is
registered again, gives up its path alone when it is deleted, and then has both places again. -/
theorem places_taken_and_given_up_displaced :
    let r : Registry := ⟨0, {}⟩
    let act (s : Session) (op : Operation) : Session :=
      { s with catalog := (op.action s.catalog).2 }
    let run : Origin := { owner? := some ⟨0⟩, name := .text "run" }
    let s₁ := act {} (.openRegistry {})
    let s₂ := act s₁ (.makeMethod run (.text "instance"))
    let s₃ := act s₂ (.register r ⟨1⟩)
    let s₄ := act s₃ (.makeMethod run (.text "instance"))
    let c := s₄.catalog
    s₄.Reachable ∧ c.Knows ⟨1⟩ ∧ (c.entity ⟨1⟩).home = r ∧ c.isRegistered r ⟨1⟩ = true ∧
      c.members ⟨0⟩ = [⟨2⟩] ∧
      (∃ once, register r ⟨1⟩ c = (.ok (), once) ∧ TakesPlaces r ⟨1⟩ c once) ∧
      GivesUpPlaces r ⟨1⟩ c (c.delete r ⟨1⟩) ∧ (c.delete r ⟨1⟩).members ⟨0⟩ = [⟨2⟩] ∧
      ∃ c', register r ⟨1⟩ (c.delete r ⟨1⟩) = (.ok (), c') ∧ ⟨1⟩ ∈ c'.members ⟨0⟩ := by
  intro r act run s₁ s₂ s₃ s₄ c
  have hroot : ∀ {c : Catalog}, c.Knows ⟨0⟩ ∧ (c.entity ⟨0⟩).isSpace = true → run.Known c :=
    fun hc => ⟨fun n h => by cases h; exact hc, fun _ h => by cases h⟩
  have ho₂ : s₂.catalog.Opened r := ⟨by decide +kernel, by decide +kernel, by decide +kernel⟩
  have h₁ : s₁.Reachable := .single (.act (.openRegistry {}) trivial)
  have h₂ : s₂.Reachable := .tail h₁ (.act (.makeMethod run _) (hroot (by decide +kernel)))
  have h₃ : s₃.Reachable := .tail h₂ (.act (.register r ⟨1⟩) ⟨ho₂, by decide +kernel⟩)
  have h₄ : s₄.Reachable := .tail h₃ (.act (.makeMethod run _) (hroot (by decide +kernel)))
  have hk : c.Knows ⟨1⟩ := by decide +kernel
  have hh : (c.entity ⟨1⟩).home = r := by decide +kernel
  have hreg : c.isRegistered r ⟨1⟩ = true := by decide +kernel
  obtain ⟨htakes, hgives, hagain⟩ := places_taken_and_given_up h₄ hk
  obtain ⟨once, -, honce, htaken, -⟩ := htakes r hh
  obtain ⟨c', hok, -, hlisted⟩ := hagain r hh
  exact ⟨h₄, hk, hh, hreg, by decide +kernel, ⟨once, honce, htaken⟩, (hgives r).1 hreg,
    by decide +kernel, c', hok, (hlisted ⟨0⟩ (by decide +kernel)).1⟩

end Session

end DocCatalog
