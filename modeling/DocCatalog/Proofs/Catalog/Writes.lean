/-
**The writes that every operation consists of.**

Whatever is done to a catalog is done by ten kinds of write, each with what its caller must see to:
an entity is put into its own registry only, a method gets another scope only while its registry
does not hold it, and a reference is used only after it was given out.  What these writes keep,
every operation keeps, so invariants are proved once for each kind of write and for nothing else.

Main definitions:

* `Catalog.Opened`: a reference to a registry that was given out;
* `Catalog.Later`: one catalog may come after another, for what was settled stays settled;
* `Catalog.WellFormed`: every reference that a catalog holds was given out, and every chain of
  owners is that of the owner;
* `Catalog.Write`, `Catalog.Writes`: one write, and any number of them.

Main results:

* `Catalog.Write.later`, `Catalog.Writes.later`: **what is settled stays settled**;
* `Catalog.Write.wellFormed`, `Catalog.Writes.wellFormed`: writes keep a catalog well-formed.
-/

import DocCatalog.Proofs.Catalog.Identity
import Mathlib.Logic.Relation

set_option autoImplicit false

namespace DocCatalog.Catalog

/-! ### References that were given out -/

/-- A reference to a registry that was given out: its root belongs to it. -/
structure Opened (c : Catalog) (r : Registry) : Prop where
  lt : r.index < c.stock.size
  knows_root : c.Knows (c.root r)
  home_root : (c.entity (c.root r)).home = r

/-- Of two references to one registry that were given out, both are the same. -/
theorem Opened.eq_of_index {c : Catalog} {r r' : Registry} (h : c.Opened r) (h' : c.Opened r')
    (hi : r.index = r'.index) : r = r' := by
  rw [← h.home_root, ← h'.home_root, root, root, holdings, holdings, hi]

/-- One catalog may come after another: references stay given out, and what was settled when an
entity was made stays as it is. -/
structure Later (c c' : Catalog) : Prop where
  knows : ∀ {e}, c.Knows e → c'.Knows e
  settled : ∀ {e}, c.Knows e → (c'.entity e).settled = (c.entity e).settled
  opened : ∀ {r}, c.Opened r → c'.Opened r

theorem Later.refl (c : Catalog) : Later c c := ⟨id, fun _ => rfl, id⟩

theorem Later.trans {c c' c'' : Catalog} (h : Later c c') (h' : Later c' c'') : Later c c'' where
  knows hk := h'.knows (h.knows hk)
  settled hk := (h'.settled (h.knows hk)).trans (h.settled hk)
  opened ho := h'.opened (h.opened ho)

section Later

variable {c c' : Catalog} {e : EntityId}

theorem Later.name (h : Later c c') (hk : c.Knows e) : (c'.entity e).name = (c.entity e).name :=
  Entity.name_eq_of_settled (h.settled hk)

theorem Later.home (h : Later c c') (hk : c.Knows e) : (c'.entity e).home = (c.entity e).home :=
  Entity.home_eq_of_settled (h.settled hk)

theorem Later.kind (h : Later c c') (hk : c.Knows e) : (c'.entity e).kind = (c.entity e).kind :=
  Entity.kind_eq_of_settled (h.settled hk)

theorem Later.lineage (h : Later c c') (hk : c.Knows e) :
    (c'.entity e).lineage = (c.entity e).lineage :=
  Entity.lineage_eq_of_settled (h.settled hk)

theorem Later.owner? (h : Later c c') (hk : c.Knows e) :
    (c'.entity e).owner? = (c.entity e).owner? :=
  Entity.owner?_eq_of_settled (h.settled hk)

theorem Later.isSpace (h : Later c c') (hk : c.Knows e) :
    (c'.entity e).isSpace = (c.entity e).isSpace :=
  Entity.isSpace_eq_of_settled (h.settled hk)

end Later

/-- A write that adds no entity, settles nothing anew and leaves the roots alone. -/
theorem Later.of_same {c c' : Catalog} (hn : c'.entities.size = c.entities.size)
    (hs : ∀ e, (c'.entity e).settled = (c.entity e).settled)
    (hm : c'.stock.size = c.stock.size) (hr : ∀ r, c'.root r = c.root r) : Later c c' where
  knows hk := by unfold Knows at *; omega
  settled _ := hs _
  opened ho := ⟨hm ▸ ho.lt, by
    have := ho.knows_root
    unfold Knows at *
    rw [hr]
    omega, by rw [hr, Entity.home_eq_of_settled (hs _), ho.home_root]⟩

/-! ### Well-formed catalogs -/

/-- Every reference that a catalog holds was given out, and every chain of owners is that of the
owner. -/
structure WellFormed (c : Catalog) : Prop where
  opened_home : ∀ {e}, c.Knows e → c.Opened (c.entity e).home
  root : ∀ {r : Registry}, r.index < c.stock.size →
    c.Knows (c.root r) ∧ (c.entity (c.root r)).kind = .root
  /-- Roots are made without a name and without an owner. -/
  bare_root : ∀ {e}, c.Knows e → (c.entity e).kind = .root →
    (c.entity e).name = "" ∧ (c.entity e).lineage = []
  lineage : ∀ {e}, c.Knows e → (c.entity e).lineage = c.lineageOf (c.entity e).owner?
  knows_owner : ∀ {e n}, c.Knows e → (c.entity e).owner? = some n →
    c.Knows n ∧ (c.entity n).isSpace = true
  knows_entry : ∀ {r p e}, (c.entries r).get? p = some e → c.Knows e
  knows_slot : ∀ {n k e}, (c.slots n).get? k = some e → c.Knows e

/-! ### Writes -/

/-- One write to a catalog, with what its caller must see to. -/
inductive Write (c : Catalog) : Catalog → Prop where
  /-- An event is recorded. -/
  | note (r : Registry) (event : Event) : Write c (c.note r event)
  /-- A registry takes an entity of its own at the entity's path. -/
  | put {r : Registry} {e : EntityId} (hk : c.Knows e) (hh : (c.entity e).home = r) :
      Write c (c.put r e)
  /-- A path becomes vacant. -/
  | take (r : Registry) (p : String) : Write c (c.updateEntries r fun t => t.erase p)
  /-- The owner of an entity lists it. -/
  | list {e : EntityId} (hk : c.Knows e) : Write c (c.adoptByOwner e)
  /-- An entity is struck off a namespace. -/
  | strike (n e : EntityId) : Write c (c.dismiss n e)
  /-- A method that its registry does not hold gets another scope. -/
  | rescope {e : EntityId} (s : Scope) (hk : c.Knows e)
      (hr : c.isRegistered (c.entity e).home e = false) :
      Write c ((c.writeScope e s).moveInOwner e (c.entity e).memberKey)
  /-- An entity changes in what identifies neither it nor its members. -/
  | alter (e : EntityId) {f : Entity → Entity} (hi : ∀ x, (f x).identity = x.identity)
      (hs : ∀ x, (f x).slots = x.slots) : Write c (c.update e f)
  /-- An entity is made that is no root and has no members. -/
  | add {x : Entity} (hk : x.kind ≠ .root) (hs : x.slots = ∅) (hh : c.Opened x.home)
      (hl : x.lineage = c.lineageOf x.owner?)
      (ho : ∀ n, x.owner? = some n → c.Knows n ∧ (c.entity n).isSpace = true) :
      Write c (c.add x).2
  /-- A registry is begun again. -/
  | clear {r : Registry} (ho : c.Opened r) : Write c (c.clear r)
  /-- A registry is opened. -/
  | openRegistry (config : Config) : Write c (c.openRegistry config).2

/-- Any number of writes, one after the other. -/
abbrev Writes : Catalog → Catalog → Prop := Relation.ReflTransGen Write

/-! ### What is settled stays settled -/

section

variable {c c' : Catalog}

theorem knows_add (x : Entity) {e : EntityId} (h : c.Knows e) : (c.add x).2.Knows e := by
  unfold Knows add at *
  simp
  omega

theorem entity_add_of_knows (x : Entity) {e : EntityId} (h : c.Knows e) :
    (c.add x).2.entity e = c.entity e := by
  unfold Knows at h
  rw [entity_add, if_neg (by omega)]

theorem later_add (x : Entity) : Later c (c.add x).2 where
  knows := knows_add x
  settled hk := by rw [entity_add_of_knows x hk]
  opened ho := ⟨ho.lt, knows_add x ho.knows_root, by
    have := ho.home_root
    rwa [← entity_add_of_knows x ho.knows_root] at this⟩

theorem holdings_clear {r : Registry} (r' : Registry) (h : r.index < c.stock.size) :
    (c.clear r).holdings r' =
      if r.index = r'.index then { root := ⟨c.entities.size⟩ } else c.holdings r' :=
  holdings_updateHoldings (c.add (newRoot r)).2 r r' _ h

theorem entity_clear (r : Registry) (e : EntityId) :
    (c.clear r).entity e = (c.add (newRoot r)).2.entity e := rfl

theorem later_clear {r : Registry} (ho : c.Opened r) : Later c (c.clear r) where
  knows := knows_add (newRoot r)
  settled := (later_add (newRoot r)).settled
  opened {r'} ho' := by
    have hroot : (c.clear r).root r' =
        if r.index = r'.index then ⟨c.entities.size⟩ else c.root r' := by
      simp only [root, holdings_clear r' ho.lt]
      split <;> rfl
    refine ⟨by simpa [clear, updateHoldings, add] using ho'.lt, ?_, ?_⟩
    · rw [hroot]
      split
      · simp [Knows, clear, updateHoldings, add]
      · exact knows_add (newRoot r) ho'.knows_root
    · rw [hroot, entity_clear]
      split
      · next hi =>
          -- the new root belongs to the registry whose root is replaced
          simp [entity_add, newRoot, ho.eq_of_index ho' hi]
      · rw [entity_add_of_knows _ ho'.knows_root, ho'.home_root]

theorem holdings_openRegistry (config : Config) (r : Registry) :
    (c.openRegistry config).2.holdings r =
      if r.index = c.stock.size then { root := ⟨c.entities.size⟩ } else c.holdings r := by
  simp only [holdings, openRegistry, add, Array.getElem?_push]
  split <;> rfl

theorem entity_openRegistry (config : Config) (e : EntityId) :
    (c.openRegistry config).2.entity e =
      (c.add (newRoot (c.openRegistry config).1)).2.entity e := rfl

theorem later_openRegistry (config : Config) : Later c (c.openRegistry config).2 where
  knows := knows_add (newRoot (c.openRegistry config).1)
  settled := (later_add (newRoot (c.openRegistry config).1)).settled
  opened {r} ho := by
    have hi : r.index ≠ c.stock.size := Nat.ne_of_lt ho.lt
    have hroot : (c.openRegistry config).2.root r = c.root r := by
      rw [root, holdings_openRegistry, if_neg hi, root]
    refine ⟨?_, ?_, ?_⟩
    · have := ho.lt
      simp [openRegistry, add]
      omega
    · rw [hroot]
      exact knows_add (newRoot (c.openRegistry config).1) ho.knows_root
    · rw [hroot, entity_openRegistry, entity_add_of_knows _ ho.knows_root, ho.home_root]

/-- A write to member lists alone. -/
theorem Later.of_bare {c c' : Catalog} (hn : c'.entities.size = c.entities.size)
    (hs : ∀ e, (c'.entity e).bare = (c.entity e).bare) (hm : c'.stock = c.stock) : Later c c' :=
  .of_same hn (fun e => Entity.settled_eq_of_identity (Entity.identity_eq_of_bare (hs e)))
    (congrArg Array.size hm) (root_congr hm)

/-- **What is settled stays settled.** -/
theorem Write.later (h : Write c c') : Later c c' := by
  cases h with
  | note r event => exact .of_same rfl (fun _ => rfl) rfl fun _ => rfl
  | put hk hh =>
      exact .of_same rfl (fun _ => rfl) (by simp [Catalog.put]) (c.root_updateEntries _ · _)
  | take r p => exact .of_same rfl (fun _ => rfl) (by simp) (c.root_updateEntries _ · _)
  | list hk => exact .of_bare (by simp) (by simp) (by simp)
  | strike n e => exact .of_bare (by simp) (by simp) (by simp)
  | @rescope e s hk hr =>
      have hw : Later c (c.writeScope e s) :=
        .of_same (by simp) (c.settled_writeScope e · s) rfl fun _ => rfl
      exact hw.trans (.of_bare (by simp) (by simp) (by simp))
  | alter e hi hs =>
      exact .of_same (by simp) (fun e' => entity_update_congr Entity.settled c e e' _
        fun x => Entity.settled_eq_of_identity (hi x)) rfl fun _ => rfl
  | add hk hs hh hl ho => exact later_add _
  | clear ho => exact later_clear ho
  | openRegistry config => exact later_openRegistry config

theorem Writes.later (h : Writes c c') : Later c c' := by
  induction h with
  | refl => exact .refl c
  | tail _ h ih => exact ih.trans h.later

/-! ### Writes keep a catalog well-formed -/

theorem lineageOf_eq_of_later (h : Later c c') {o : Option EntityId}
    (ho : ∀ n, o = some n → c.Knows n) : c'.lineageOf o = c.lineageOf o := by
  cases o with
  | none => rfl
  | some n =>
      have hn : c.Knows n := ho n rfl
      simp only [lineageOf, Entity.asAncestor_eq_of_settled (h.settled hn), h.lineage hn]

/-- A write that adds no entity, settles nothing anew, leaves the roots alone and makes known
entities entries and members only. -/
theorem WellFormed.of_same (hc : c.WellFormed) (hn : c'.entities.size = c.entities.size)
    (hs : ∀ e, (c'.entity e).settled = (c.entity e).settled)
    (hm : c'.stock.size = c.stock.size) (hr : ∀ r, c'.root r = c.root r)
    (hentry : ∀ {r p e}, (c'.entries r).get? p = some e → c.Knows e)
    (hslot : ∀ {n k e}, (c'.slots n).get? k = some e → c.Knows e) : c'.WellFormed := by
  have hl : Later c c' := .of_same hn hs hm hr
  have hl' : Later c' c := .of_same hn.symm (fun e => (hs e).symm) hm.symm fun r => (hr r).symm
  refine ⟨?_, ?_, ?_, ?_, ?_, fun h => hl.knows (hentry h), fun h => hl.knows (hslot h)⟩
  · intro e hk
    have hk := hl'.knows hk
    rw [hl.home hk]
    exact hl.opened (hc.opened_home hk)
  · intro r hlt
    obtain ⟨hk, hkind⟩ := hc.root (hm ▸ hlt)
    rw [hr, hl.kind hk]
    exact ⟨hl.knows hk, hkind⟩
  · intro e hk
    have hk := hl'.knows hk
    rw [hl.kind hk, hl.name hk, hl.lineage hk]
    exact hc.bare_root hk
  · intro e hk
    have hk := hl'.knows hk
    rw [hl.lineage hk, hl.owner? hk, hc.lineage hk]
    exact (lineageOf_eq_of_later hl fun n ho => (hc.knows_owner hk ho).1).symm
  · intro e n hk ho
    have hk := hl'.knows hk
    rw [hl.owner? hk] at ho
    obtain ⟨hn, hs⟩ := hc.knows_owner hk ho
    exact ⟨hl.knows hn, by rw [hl.isSpace hn, hs]⟩

/-- A new entity without members changes no list. -/
theorem get?_slots_of_push {x : Entity} {n e : EntityId} {k : String × Option Scope}
    (hx : c'.entities = c.entities.push x) (hs : x.slots = ∅)
    (h : (c'.slots n).get? k = some e) : (c.slots n).get? k = some e := by
  have hent : c'.entity n = (c.add x).2.entity n := by rw [entity, hx]; rfl
  rw [slots, hent, entity_add] at h
  split at h
  · rw [hs] at h
    cases h
  · exact h

/-- A write that makes one entity, without members, and makes nothing an entry. -/
theorem WellFormed.of_push (hc : c.WellFormed) (hl : Later c c') {x : Entity}
    (hx : c'.entities = c.entities.push x) (hh : c'.Opened x.home)
    (hr : ∀ {r : Registry}, r.index < c'.stock.size →
      c'.Knows (c'.root r) ∧ (c'.entity (c'.root r)).kind = .root)
    (hb : x.kind = .root → x.name = "" ∧ x.lineage = [])
    (hlin : x.lineage = c.lineageOf x.owner?)
    (ho : ∀ n, x.owner? = some n → c.Knows n ∧ (c.entity n).isSpace = true) (hs : x.slots = ∅)
    (hentry : ∀ {r p e}, (c'.entries r).get? p = some e → c.Knows e) : c'.WellFormed := by
  have hent : ∀ e, c'.entity e = (c.add x).2.entity e := by intro e; rw [entity, hx]; rfl
  -- what is known is either known of old or the new entity
  have hcases : ∀ {e}, c'.Knows e → c.Knows e ∨ c'.entity e = x := by
    intro e hk
    rw [Knows, hx, Array.size_push] at hk
    by_cases hi : e.index = c.entities.size
    · exact .inr (by rw [hent, entity_add, if_pos hi])
    · exact .inl (by unfold Knows; omega)
  refine ⟨?_, hr, ?_, ?_, ?_, fun h => hl.knows (hentry h), ?_⟩
  · intro e hk
    rcases hcases hk with hk | he
    · rw [hl.home hk]
      exact hl.opened (hc.opened_home hk)
    · rwa [he]
  · intro e hk
    rcases hcases hk with hk | he
    · rw [hl.kind hk, hl.name hk, hl.lineage hk]
      exact hc.bare_root hk
    · rwa [he]
  · intro e hk
    rcases hcases hk with hk | he
    · rw [hl.lineage hk, hl.owner? hk, hc.lineage hk]
      exact (lineageOf_eq_of_later hl fun n h => (hc.knows_owner hk h).1).symm
    · rw [he, hlin]
      exact (lineageOf_eq_of_later hl fun n h => (ho n h).1).symm
  · intro e n hk hown
    rcases hcases hk with hk | he
    · rw [hl.owner? hk] at hown
      obtain ⟨hn, hs⟩ := hc.knows_owner hk hown
      exact ⟨hl.knows hn, by rw [hl.isSpace hn, hs]⟩
    · rw [he] at hown
      obtain ⟨hn, hs⟩ := ho n hown
      exact ⟨hl.knows hn, by rw [hl.isSpace hn, hs]⟩
  · exact fun h => hl.knows (hc.knows_slot (get?_slots_of_push hx hs h))

/-- A write to member lists alone keeps a catalog well-formed if it lists known entities only. -/
theorem WellFormed.of_bare (hc : c.WellFormed) (hn : c'.entities.size = c.entities.size)
    (hs : ∀ e, (c'.entity e).bare = (c.entity e).bare) (hm : c'.stock = c.stock)
    (hslot : ∀ {n k e}, (c'.slots n).get? k = some e → c.Knows e) : c'.WellFormed := by
  refine hc.of_same hn (fun e => ?_) (congrArg Array.size hm) (root_congr hm) ?_ hslot
  · exact Entity.settled_eq_of_identity (Entity.identity_eq_of_bare (hs e))
  · intro r p e h
    rw [entries_congr hm] at h
    exact hc.knows_entry h

theorem WellFormed.writeScope (hc : c.WellFormed) (e : EntityId) (s : Scope) :
    (c.writeScope e s).WellFormed :=
  hc.of_same (by simp) (c.settled_writeScope e · s) rfl (fun _ => rfl) hc.knows_entry
    fun h => hc.knows_slot (by simpa using h)

theorem entries_clear {r : Registry} (r' : Registry) (h : r.index < c.stock.size) :
    (c.clear r).entries r' = if r.index = r'.index then ∅ else c.entries r' := by
  simp only [entries, holdings_clear r' h]
  split <;> rfl

theorem root_clear {r : Registry} (r' : Registry) (h : r.index < c.stock.size) :
    (c.clear r).root r' = if r.index = r'.index then ⟨c.entities.size⟩ else c.root r' := by
  simp only [root, holdings_clear r' h]
  split <;> rfl

theorem entries_openRegistry (config : Config) (r : Registry) :
    (c.openRegistry config).2.entries r =
      if r.index = c.stock.size then ∅ else c.entries r := by
  simp only [entries, holdings_openRegistry]
  split <;> rfl

theorem root_openRegistry (config : Config) (r : Registry) :
    (c.openRegistry config).2.root r =
      if r.index = c.stock.size then ⟨c.entities.size⟩ else c.root r := by
  simp only [root, holdings_openRegistry]
  split <;> rfl

theorem knows_push {c' : Catalog} {x : Entity} (h : c'.entities = c.entities.push x) :
    c'.Knows ⟨c.entities.size⟩ := by
  rw [Knows, h, Array.size_push]
  exact Nat.lt_succ_self _

/-- A new registry is opened. -/
theorem opened_openRegistry (config : Config) :
    (c.openRegistry config).2.Opened (c.openRegistry config).1 := by
  have hroot := c.root_openRegistry config (c.openRegistry config).1
  rw [if_pos (show (c.openRegistry config).1.index = c.stock.size from rfl)] at hroot
  refine ⟨by simp [openRegistry, add], ?_, ?_⟩
  · rw [hroot]
    exact knows_push (x := newRoot (c.openRegistry config).1) rfl
  · rw [hroot, entity_openRegistry, entity_add, if_pos rfl]
    rfl

theorem wellFormed_clear (hc : c.WellFormed) {r : Registry} (ho : c.Opened r) :
    (c.clear r).WellFormed := by
  have hl := later_clear ho
  refine hc.of_push hl (x := newRoot r) rfl (hl.opened ho) ?_ (fun _ => ⟨rfl, rfl⟩) rfl
    (fun n h => by simp [newRoot, Entity.owner?] at h) rfl ?_
  · intro r' hlt
    rw [root_clear r' ho.lt]
    split
    · exact ⟨knows_push (x := newRoot r) rfl, by rw [entity_clear, entity_add, if_pos rfl]; rfl⟩
    · obtain ⟨hk, hkind⟩ := hc.root (r := r') (by simpa [clear, updateHoldings, add] using hlt)
      rw [hl.kind hk]
      exact ⟨hl.knows hk, hkind⟩
  · intro r' p e h
    rw [entries_clear r' ho.lt] at h
    split at h
    · simp at h
    · exact hc.knows_entry h

theorem wellFormed_openRegistry (hc : c.WellFormed) (config : Config) :
    (c.openRegistry config).2.WellFormed := by
  have hl : Later c _ := later_openRegistry config
  refine hc.of_push hl (x := newRoot (c.openRegistry config).1) rfl (opened_openRegistry config) ?_
    (fun _ => ⟨rfl, rfl⟩) rfl (fun n h => by simp [newRoot, Entity.owner?] at h) rfl ?_
  · intro r hlt
    rw [root_openRegistry]
    split
    · refine ⟨knows_push (x := newRoot (c.openRegistry config).1) rfl, ?_⟩
      rw [entity_openRegistry, entity_add, if_pos rfl]
      rfl
    · next hi =>
        have hlt' : r.index < c.stock.size := by
          simp only [openRegistry, add, Array.size_push] at hlt
          omega
        obtain ⟨hk, hkind⟩ := hc.root hlt'
        rw [hl.kind hk]
        exact ⟨hl.knows hk, hkind⟩
  · intro r p e h
    rw [entries_openRegistry] at h
    split at h
    · simp at h
    · exact hc.knows_entry h

/-- Writes keep a catalog well-formed. -/
theorem Write.wellFormed (hc : c.WellFormed) (h : Write c c') : c'.WellFormed := by
  cases h with
  | note r event =>
      exact hc.of_same rfl (fun _ => rfl) rfl (fun _ => rfl) hc.knows_entry hc.knows_slot
  | @put r e hk hh =>
      have hlt : r.index < c.stock.size := hh ▸ (hc.opened_home hk).lt
      refine hc.of_same rfl (fun _ => rfl) (by simp [Catalog.put]) (c.root_updateEntries _ · _) ?_
        hc.knows_slot
      intro r' p e' h
      rw [get?_entries_put c e r' p hlt] at h
      split at h
      · exact Option.some.inj h ▸ hk
      · exact hc.knows_entry h
  | take r p =>
      refine hc.of_same rfl (fun _ => rfl) (by simp) (c.root_updateEntries _ · _) ?_ hc.knows_slot
      intro r' q e h
      rw [get?_entries_take] at h
      split at h
      · simp at h
      · exact hc.knows_entry h
  | @list e hk =>
      refine hc.of_bare (by simp) (by simp) (by simp) ?_
      intro n k e' h
      rw [get?_slots_adoptByOwner c n k fun n ho => (hc.knows_owner hk ho).2] at h
      split at h
      · exact Option.some.inj h ▸ hk
      · exact hc.knows_slot h
  | strike n e =>
      refine hc.of_bare (by simp) (by simp) (by simp) ?_
      intro n' k e' h
      rw [get?_slots_dismiss] at h
      split at h
      · simp at h
      · exact hc.knows_slot h
  | @rescope e s hk hr =>
      have hw : (c.writeScope e s).WellFormed := hc.writeScope e s
      refine hw.of_bare (by simp) (by simp) (by simp) ?_
      intro n k e' h
      have hk : (c.writeScope e s).Knows e := by simpa [Knows] using hk
      rw [get?_slots_moveInOwner] at h
      split at h
      · split at h
        · exact Option.some.inj h ▸ hk
        · split at h
          · simp at h
          · exact hw.knows_slot h
      · exact hw.knows_slot h
  | alter e hi hs =>
      refine hc.of_same (by simp) (fun e' => ?_) rfl (fun _ => rfl) hc.knows_entry ?_
      · exact entity_update_congr Entity.settled c e e' _
          fun x => Entity.settled_eq_of_identity (hi x)
      · intro n k e' h
        rw [slots_update c e n _ hs] at h
        exact hc.knows_slot h
  | add hk hs hh hlin ho =>
      refine hc.of_push (later_add _) rfl ((later_add _).opened hh) (fun hlt => ?_)
        (absurd · hk) hlin ho hs hc.knows_entry
      obtain ⟨hk, hkind⟩ := hc.root hlt
      exact ⟨(later_add _).knows hk, ((later_add _).kind hk).trans hkind⟩
  | clear ho => exact wellFormed_clear hc ho
  | openRegistry config => exact wellFormed_openRegistry hc config

theorem Writes.wellFormed (hc : c.WellFormed) (h : Writes c c') : c'.WellFormed := by
  induction h with
  | refl => exact hc
  | tail _ h ih => exact h.wellFormed ih

end

end DocCatalog.Catalog
