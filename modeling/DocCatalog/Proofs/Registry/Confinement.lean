/-
**What an operation on one registry leaves alone.**

All registries of a catalog share one store of entities, and an operation comes to its registry in
many ways: as an argument, as the home of an entity, as that of an owner.  Where every entity is at
home with its owner, none of these ways leads out of the registry.  So an operation writes to the
holdings of its registry and to entities at home there, makes entities there, and writes down only
whom it was given or whom the registry holds.

Main definitions:

* `Catalog.Domestic`: a sound catalog in which every entity is at home with its owner;
* `Catalog.Confined`, `Catalog.Within`: one write, and any number of them, that leave alone all that
  is not at home in a registry;
* `Operation.references`, `Operation.AddressedTo`: whom an operation names, and where it is done;
* `Catalog.Untouched`: a registry, with all its entities, is as it was.

Main results:

* `Catalog.Within.walk`: making namespaces and loading manifests stays within the registry;
* `Operation.within`: **an operation that names only entities of a registry stays within it**;
* `Operation.untouched`: an operation that is addressed to one registry does not touch another;
* `Catalog.Domestic.foreign`: what a registry does to an entity of another.
-/

import DocCatalog.Proofs.Manifest.Walking
import DocCatalog.Proofs.Registry.AuditTrail
import DocCatalog.Proofs.Registry.Commuting

set_option autoImplicit false

namespace DocCatalog

/-! ### Writes to the member lists -/

namespace Entity

/-- Work on the members of a namespace leaves alone whom it mentions. -/
theorem mentions_updateMembers {f : Tables → Tables} (x : Entity) (d : EntityId)
    (hs : ∀ t s, (f t).attributes? s = t.attributes? s) (ha : ∀ t, (f t).aliases = t.aliases) :
    (x.updateTables f).Mentions d = x.Mentions d := by
  have hmap : ∀ t, (f t).Mentions d ↔ t.Mentions d := fun t => Tables.mentions_congr (hs t) (ha t)
  simp only [Mentions, tables?_updateTables, Option.map_eq_some_iff, eq_iff_iff]
  constructor
  · rintro ⟨_, ⟨t, ht, rfl⟩, hd⟩
    exact ⟨t, ht, (hmap t).1 hd⟩
  · rintro ⟨t, ht, hd⟩
    exact ⟨f t, ⟨t, ht, rfl⟩, (hmap t).2 hd⟩

end Entity

namespace Catalog

variable {c c' c₀ : Catalog} {r r' : Registry} {e e' n d : EntityId}

theorem entity_update_of_ne (c : Catalog) (f : Entity → Entity) (h : e ≠ e') :
    (c.update e f).entity e' = c.entity e' := by
  by_cases hk : c.Knows e
  · rw [entity_update c e e' f hk, if_neg h]
  · rw [update_of_not_knows hk]

/-- Listing an entity in its owner changes the owner only. -/
theorem entity_adoptByOwner_of_ne (c : Catalog) (h : (c.entity e).owner? ≠ some e') :
    (c.adoptByOwner e).entity e' = c.entity e' := by
  unfold adoptByOwner
  split
  · next n hn => exact c.entity_update_of_ne _ fun he => h (he ▸ hn)
  · rfl

theorem entity_dismiss_of_ne (c : Catalog) (e : EntityId) (h : n ≠ e') :
    (c.dismiss n e).entity e' = c.entity e' := by
  simp only [dismiss]
  split
  · exact c.entity_update_of_ne _ h
  · rfl

theorem entity_dismissByOwner_of_ne (c : Catalog) (h : (c.entity e).owner? ≠ some e') :
    (c.dismissByOwner e).entity e' = c.entity e' := by
  unfold dismissByOwner
  split
  · next n hn => exact c.entity_dismiss_of_ne e fun he => h (he ▸ hn)
  · rfl

theorem entity_moveInOwner_of_ne (c : Catalog) (old : String × Option Scope)
    (h : (c.entity e).owner? ≠ some e') : (c.moveInOwner e old).entity e' = c.entity e' := by
  unfold moveInOwner moveMember
  split
  · next n hn =>
      split
      · exact c.entity_update_of_ne _ fun he => h (he ▸ hn)
      · rfl
  · rfl

theorem mentions_updateMembers (c : Catalog) (n e d : EntityId)
    (f : OrderedTable (String × Option Scope) EntityId →
      OrderedTable (String × Option Scope) EntityId) :
    ((c.updateTables n fun t => { t with members := f t.members }).entity e).Mentions d =
      (c.entity e).Mentions d :=
  entity_update_congr (fun x => x.Mentions d) c n e _ fun x =>
    x.mentions_updateMembers d (fun _ s => by cases s <;> rfl) fun _ => rfl

theorem mentions_adoptByOwner (c : Catalog) (e e' d : EntityId) :
    ((c.adoptByOwner e).entity e').Mentions d = (c.entity e').Mentions d := by
  unfold adoptByOwner
  split
  · exact c.mentions_updateMembers _ e' d fun m => m.insert (c.entity e).memberKey e
  · rfl

theorem mentions_dismiss (c : Catalog) (n e e' d : EntityId) :
    ((c.dismiss n e).entity e').Mentions d = (c.entity e').Mentions d := by
  simp only [dismiss]
  split
  · exact c.mentions_updateMembers n e' d fun m => m.erase (c.entity e).memberKey
  · rfl

theorem mentions_dismissByOwner (c : Catalog) (e e' d : EntityId) :
    ((c.dismissByOwner e).entity e').Mentions d = (c.entity e').Mentions d := by
  unfold dismissByOwner
  split
  · exact c.mentions_dismiss _ e e' d
  · rfl

theorem mentions_moveInOwner (c : Catalog) (e e' d : EntityId) (old : String × Option Scope) :
    ((c.moveInOwner e old).entity e').Mentions d = (c.entity e').Mentions d := by
  unfold moveInOwner moveMember
  split
  · split
    · exact c.mentions_updateMembers _ e' d fun m => (m.erase old).insert (c.entity e).memberKey e
    · rfl
  · rfl

/-! ### Entities at home with their owners -/

/-- A sound catalog in which every entity is at home with its owner. -/
structure Domestic (c : Catalog) : Prop where
  wellFormed : c.WellFormed
  keysHold : c.KeysHold
  slotsHold : c.SlotsHold
  owner_home : ∀ {e n}, c.Knows e → (c.entity e).owner? = some n →
    (c.entity n).home = (c.entity e).home

namespace Domestic

variable (h : c.Domestic)
include h

/-- An owner at home in another registry is not the owner. -/
theorem owner?_ne (hk : c.Knows e) (hh : (c.entity e).home = r) (hne : (c.entity e').home ≠ r) :
    (c.entity e).owner? ≠ some e' := fun ho => hne ((h.owner_home hk ho).trans hh)

/-- What a registry holds at the path of an entity is the entity only if it is at home there. -/
theorem not_registered (hr : c.Opened r) (hh : (c.entity e).home ≠ r) :
    c.isRegistered r e = false := by
  rw [isRegistered, decide_eq_false_iff_not]
  exact fun hreg => hh (h.keysHold.home h.wellFormed hr hreg)

/-- Of an entity of another registry, a registry takes none in, has none to give away, and begins
and ends a change of path with nothing done. -/
theorem foreign (hr : c.Opened r) (hh : (c.entity e).home ≠ r) :
    register r e c = (.error (.foreign (c.entity e).shown), c) ∧ c.delete r e = c ∧
      rekey r e (pure ()) c = (.ok (), c) := by
  have hreg := h.not_registered hr hh
  refine ⟨?_, ?_, ?_⟩
  · rw [register, Action.bind_get, if_neg hh]
    rfl
  · simp [delete, hreg]
  · have hopen : c.openRekey r e = (⟨r, e, c.path e, false⟩, c) := by simp [openRekey, hreg]
    rw [rekey, hopen]
    rfl

end Domestic

/-! ### Writes within a registry -/

/-- Writes that leave alone all that is not at home in a registry: what the others hold and who is
at home with them.  Newcomers are at home in the registry and with their owners, and who is
mentioned was mentioned already or is known. -/
structure Confined (r : Registry) (c c' : Catalog) : Prop where
  writes : Writes c c'
  entries : ∀ {r' : Registry}, r'.index ≠ r.index → c'.entries r' = c.entries r'
  root : ∀ {r' : Registry}, r'.index ≠ r.index → c'.root r' = c.root r'
  entity : ∀ {e}, c.Knows e → (c.entity e).home ≠ r → c'.entity e = c.entity e
  newcomer : ∀ {e}, c'.Knows e → ¬ c.Knows e → (c'.entity e).home = r ∧
    ∀ n, (c'.entity e).owner? = some n → c.Knows n ∧ (c.entity n).home = r
  mentions : ∀ {e d}, (c'.entity e).Mentions d → (∃ e', (c.entity e').Mentions d) ∨ c'.Knows d

namespace Confined

/-- Writes by which nobody comes. -/
theorem of_size (hw : Writes c c') (hsize : c'.entities.size = c.entities.size)
    (hentries : ∀ {r' : Registry}, r'.index ≠ r.index → c'.entries r' = c.entries r')
    (hroot : ∀ r', c'.root r' = c.root r')
    (hentity : ∀ {e}, c.Knows e → (c.entity e).home ≠ r → c'.entity e = c.entity e)
    (hmentions : ∀ {e d}, (c'.entity e).Mentions d →
      (∃ e', (c.entity e').Mentions d) ∨ c'.Knows d) :
    Confined r c c' :=
  ⟨hw, hentries, fun _ => hroot _, hentity, fun hk hn => (hn (by rwa [Knows, hsize] at hk)).elim,
    hmentions⟩

end Confined

/-- Any number of writes within a registry. -/
structure Within (r : Registry) (c₀ c : Catalog) : Prop where
  domestic : c.Domestic
  opened : c.Opened r
  later : Later c₀ c
  entries : ∀ {r' : Registry}, r'.index ≠ r.index → c.entries r' = c₀.entries r'
  root : ∀ {r' : Registry}, r'.index ≠ r.index → c.root r' = c₀.root r'
  entity : ∀ {e}, c₀.Knows e → (c₀.entity e).home ≠ r → c.entity e = c₀.entity e
  newcomer : ∀ {e}, c.Knows e → ¬ c₀.Knows e → (c.entity e).home = r
  mentions : ∀ {e d}, (c.entity e).Mentions d → (∃ e', (c₀.entity e').Mentions d) ∨ c.Knows d

theorem Domestic.within (h : c.Domestic) (hr : c.Opened r) : Within r c c :=
  ⟨h, hr, .refl c, fun _ => rfl, fun _ => rfl, fun _ _ => rfl, fun hk hn => (hn hk).elim,
    fun hd => .inl ⟨_, hd⟩⟩

namespace Within

/-- One more write. -/
theorem step (h : Within r c₀ c) (hc : Confined r c c') : Within r c₀ c' where
  domestic := by
    have hl := hc.writes.later
    have hw := h.domestic.wellFormed
    refine ⟨hc.writes.wellFormed hw, hc.writes.keysHold hw h.domestic.keysHold,
      hc.writes.slotsHold hw h.domestic.slotsHold, fun {e n} hk ho => ?_⟩
    by_cases hke : c.Knows e
    · rw [hl.owner? hke] at ho
      rw [hl.home hke, hl.home (hw.knows_owner hke ho).1]
      exact h.domestic.owner_home hke ho
    · obtain ⟨hh, hown⟩ := hc.newcomer hk hke
      obtain ⟨hkn, hhn⟩ := hown n ho
      rw [hl.home hkn, hhn, hh]
  opened := hc.writes.later.opened h.opened
  later := h.later.trans hc.writes.later
  entries hi := (hc.entries hi).trans (h.entries hi)
  root hi := (hc.root hi).trans (h.root hi)
  entity {e} hk hh := by
    rw [hc.entity (h.later.knows hk) (by rwa [h.later.home hk]), h.entity hk hh]
  newcomer {e} hk hn := by
    by_cases hke : c.Knows e
    · rw [hc.writes.later.home hke]
      exact h.newcomer hke hn
    · exact (hc.newcomer hk hke).1
  mentions hd := by
    rcases hc.mentions hd with ⟨e', hd⟩ | hk
    · exact (h.mentions hd).imp_right hc.writes.later.knows
    · exact .inr hk

variable (h : Within r c₀ c)
include h

/-! ### Entries -/

theorem enter (hk : c.Knows e) (hh : (c.entity e).home = r) : Within r c₀ (c.enter r e) := by
  have hstock : (c.enter r e).stock = (c.put r e).stock := stock_adoptByOwner _ e
  refine h.step (.of_size (writes_enter hk hh) (size_adoptByOwner (c.put r e) e) (fun hi => ?_)
    (fun r' => ?_) (fun _ hne => ?_) fun {e' d} hd => .inl ⟨e', ?_⟩)
  · rw [entries_congr hstock]
    exact c.entries_updateEntries_of_ne _ (Ne.symm hi)
  · rw [root_congr hstock]
    exact c.root_updateEntries r r' _
  · exact (c.put r e).entity_adoptByOwner_of_ne (h.domestic.owner?_ne hk hh hne)
  · exact (c.put r e).mentions_adoptByOwner e e' d ▸ hd

theorem delete (hk : c.Knows e) : Within r c₀ (c.delete r e) := by
  by_cases hreg : c.isRegistered r e = true
  · have hh : (c.entity e).home = r := by
      by_contra hne
      rw [h.domestic.not_registered h.opened hne] at hreg
      cases hreg
    have hstock := stock_delete hreg
    refine h.step (.of_size (c.writes_delete r e) (size_delete hreg) (fun hi => ?_)
      (fun r' => ?_) (fun _ hne => ?_) fun {e' d} hd => .inl ⟨e', ?_⟩)
    · rw [entries_congr hstock]
      exact c.entries_updateEntries_of_ne _ (Ne.symm hi)
    · rw [root_congr hstock]
      exact c.root_updateEntries r r' _
    · rw [delete_eq hreg]
      exact entity_dismissByOwner_of_ne (c.updateEntries r fun t => t.erase (c.path e))
        (h.domestic.owner?_ne hk hh hne)
    · rw [delete_eq hreg] at hd
      exact mentions_dismissByOwner (c.updateEntries r fun t => t.erase (c.path e)) e e' d ▸ hd
  · rw [Catalog.delete, if_neg hreg]
    exact h

theorem dismiss (hh : (c.entity n).home = r) (e : EntityId) : Within r c₀ (c.dismiss n e) := by
  refine h.step (.of_size (.single (.strike n e)) (by simp)
    (fun _ => entries_congr (c.stock_dismiss n e) _) (root_congr (c.stock_dismiss n e))
    (fun _ hne => c.entity_dismiss_of_ne e ?_) fun hd => .inl ⟨_, c.mentions_dismiss n e _ _ ▸ hd⟩)
  rintro rfl
  exact hne hh

/-! ### Changes of path -/

theorem openRekey (e : EntityId) : Within r c₀ (c.openRekey r e).2 :=
  h.step (.of_size (c.writes_openRekey r e) (c.size_openRekey r e)
    (fun hi => c.entries_openRekey_of_ne e (Ne.symm hi)) (c.root_openRekey r e)
    (fun _ _ => c.entity_openRekey r e _) fun hd => .inl ⟨_, c.entity_openRekey r e _ ▸ hd⟩)

theorem closeRekey {k : Rekeying} (hr : k.registry = r) (hk : c.Knows k.entity)
    (hh : k.wasRegistered = true → (c.entity k.entity).home = k.registry) :
    Within r c₀ (c.closeRekey k) :=
  h.step (.of_size (writes_closeRekey hk hh) (c.size_closeRekey k)
    (fun hi => c.entries_closeRekey_of_ne (hr ▸ Ne.symm hi)) (c.root_closeRekey k)
    (fun _ _ => c.entity_closeRekey k _) fun hd => .inl ⟨_, c.entity_closeRekey k _ ▸ hd⟩)

/-- A method that its registry does not hold gets another scope. -/
theorem respell (hk : c.Knows e) (hh : (c.entity e).home = r) (hreg : c.isRegistered r e = false)
    (s : Scope) : Within r c₀ ((c.writeScope e s).moveInOwner e (c.entity e).memberKey) := by
  have hstock : ((c.writeScope e s).moveInOwner e (c.entity e).memberKey).stock = c.stock := by simp
  refine h.step (.of_size (.single (.rescope s hk (by rwa [hh]))) (by simp)
    (fun _ => entries_congr hstock _) (root_congr hstock) (fun {e'} _ hne => ?_)
    fun {e' d} hd => .inl ⟨e', ?_⟩)
  · have he : e ≠ e' := by
      rintro rfl
      exact hne hh
    rw [entity_moveInOwner_of_ne, c.entity_writeScope_of_ne s he]
    rw [owner?_writeScope]
    exact h.domestic.owner?_ne hk hh hne
  · rw [mentions_moveInOwner] at hd
    exact (entity_update_congr (fun x => x.Mentions d) c e e' _ fun x =>
      propext (Entity.mentions_congr (x.tables?_updateMethod _))) ▸ hd

theorem rescope (hk : c.Knows e) (hh : (c.entity e).home = r) (s : Scope) :
    Within r c₀ (c.rescope e s) := by
  have hent := c.entity_openRekey r e e
  have hmoved := (h.openRekey e).respell (knows_openRekey r hk) (by rw [hent, hh])
    (c.isRegistered_openRekey r e) s
  rw [hent] at hmoved
  have hl := (Write.rescope s (knows_openRekey r hk) (by
    rw [hent, hh]
    exact c.isRegistered_openRekey r e)).later
  rw [hent] at hl
  rw [rescope_eq, rescoped, hh]
  refine hmoved.closeRekey rfl (hl.knows (knows_openRekey r hk)) fun _ => ?_
  show (Entity.home (Catalog.entity _ e)) = r
  rw [hl.home (knows_openRekey r hk), hent, hh]

/-! ### Touches, records, newcomers -/

theorem update {f : Entity → Entity} {others : EntityId → Prop} (hk : c.Knows e)
    (hh : (c.entity e).home = r) (ht : Touch c e f others) (hothers : ∀ d, others d → c.Knows d) :
    Within r c₀ (c.update e f) := by
  refine h.step (.of_size (.single (.alter e ht.identity ht.slots)) (c.size_update e f)
    (fun _ => rfl) (fun _ => rfl) (fun _ hne => c.entity_update_of_ne f ?_) fun {e' d} hd => ?_)
  · rintro rfl
    exact hne hh
  · rw [entity_update c e e' f hk] at hd
    split at hd
    · exact (ht.mentions hd).imp (fun hd => ⟨e, hd⟩)
        fun hd => by simpa [Knows] using hothers d hd
    · exact .inl ⟨e', hd⟩

theorem note (r' : Registry) (event : Event) : Within r c₀ (c.note r' event) :=
  h.step (.of_size (.single (.note r' event)) rfl (fun _ => rfl) (fun _ => rfl) (fun _ _ => rfl)
    fun hd => .inl ⟨_, hd⟩)

/-- The registry is begun again. -/
theorem clear : Within r c₀ (c.clear r) := by
  have hlt := h.opened.lt
  have hold : ∀ {e}, c.Knows e → (c.clear r).entity e = c.entity e := fun hk => by
    rw [entity_clear, entity_add_of_knows _ hk]
  have hnew : ∀ {e}, (c.clear r).Knows e → ¬ c.Knows e → (c.clear r).entity e = newRoot r := by
    intro e hk hn
    rw [entity_clear, entity_add, if_pos]
    simp only [Knows, Catalog.clear, updateHoldings, add, Array.size_push] at hk hn
    omega
  refine h.step ⟨.single (.clear h.opened), fun hi => ?_, fun hi => ?_, fun hk _ => hold hk,
    fun hk hn => ?_, fun {e d} hd => ?_⟩
  · rw [entries_clear _ hlt, if_neg (Ne.symm hi)]
  · rw [root_clear _ hlt, if_neg (Ne.symm hi)]
  · rw [hnew hk hn]
    exact ⟨rfl, fun n ho => by cases ho⟩
  · by_cases hke : c.Knows e
    · exact .inl ⟨e, hold hke ▸ hd⟩
    · by_cases hk : (c.clear r).Knows e
      · rw [hnew hk hke] at hd
        obtain ⟨t, ht, hd⟩ := hd
        exact (Tables.not_mentions_empty (Option.some.inj ht ▸ hd)).elim
      · rw [entity_of_not_knows hk] at hd
        obtain ⟨t, ht, -⟩ := hd
        cases ht

/-- An entity is made below an owner at home in the registry, or below none. -/
theorem founded {x : Entity} (hx : x.form.IsNew) (hh : x.home = r)
    (hl : x.lineage = c.lineageOf x.owner?)
    (ho : ∀ n, x.owner? = some n →
      c.Knows n ∧ (c.entity n).isSpace = true ∧ (c.entity n).home = r) :
    Within r c₀ (c.founded x) := by
  have hstock : (c.founded x).stock = c.stock := stock_adoptByOwner _ _
  have hself : (c.add x).2.entity ⟨c.entities.size⟩ = x := by rw [entity_add, if_pos rfl]
  have hw : Writes c (c.founded x) :=
    .tail (.single (.add hx.kind_ne_root hx.slots_eq (hh ▸ h.opened) hl
      fun n hn => ⟨(ho n hn).1, (ho n hn).2.1⟩)) (.list (knows_push rfl))
  have hnew : ∀ {e}, (c.founded x).Knows e → ¬ c.Knows e → e = ⟨c.entities.size⟩ := fun hk hn => by
    by_contra hne
    exact hn (knows_of_founded hne hk)
  refine h.step ⟨hw, fun _ => entries_congr hstock _, fun _ => root_congr hstock _,
    fun {e} hk hne => ?_, fun hk hn => ?_, fun {e d} hd => ?_⟩
  · rw [Catalog.founded, entity_adoptByOwner_of_ne, entity_add_of_knows x hk]
    rw [hself]
    exact fun hown => hne (ho e hown).2.2
  · obtain rfl := hnew hk hn
    have hset := Entity.settled_eq_of_identity (Entity.identity_eq_of_bare (c.bare_founded_self x))
    rw [Entity.home_eq_of_settled hset, Entity.owner?_eq_of_settled hset]
    exact ⟨hh, fun n hown => ⟨(ho n hown).1, (ho n hown).2.2⟩⟩
  · rw [Catalog.founded, mentions_adoptByOwner, entity_add] at hd
    split at hd
    · exact (hx.not_mentions hd).elim
    · exact .inl ⟨e, hd⟩

end Within

/-! ### Loading within a registry -/

/-- What is held by a registry that was opened is known. -/
theorem knows_of_heldBy (hc : c.WellFormed) (hr : c.Opened r) (hd : Manifest.HeldBy r c d) :
    c.Knows d := by
  obtain ⟨p, hp⟩ := hd
  unfold lookup? at hp
  split at hp
  · exact Option.some.inj hp ▸ hr.knows_root
  · exact hc.knows_entry hp

/-- A catalog that was come to within a registry, and an entity of the registry. -/
structure WithinOn (r : Registry) (c₀ : Catalog) (e : EntityId) (c : Catalog) : Prop
    extends Within r c₀ c where
  knows : c.Knows e
  home : (c.entity e).home = r

/-- A catalog that was come to within a registry, and a namespace of the registry. -/
structure WithinAt (r : Registry) (c₀ : Catalog) (n : EntityId) (c : Catalog) : Prop
    extends WithinOn r c₀ n c where
  isSpace : (c.entity n).isSpace = true

namespace WithinOn

/-- A write that goes on from an entity of the registry. -/
theorem mono (h : WithinOn r c₀ e c) (hl : Later c c') (hc : Within r c₀ c') :
    WithinOn r c₀ e c' := ⟨hc, hl.knows h.knows, by rw [hl.home h.knows, h.home]⟩

theorem enter (h : WithinOn r c₀ e c) : WithinOn r c₀ e (c.enter r e) :=
  h.mono (writes_enter h.knows h.home).later (h.toWithin.enter h.knows h.home)

theorem touch {f : Entity → Entity} (h : WithinOn r c₀ e c)
    (ht : Touch c e f (Manifest.HeldBy r c)) : WithinOn r c₀ e (c.update e f) :=
  h.mono (Write.alter e ht.identity ht.slots).later (h.toWithin.update h.knows h.home ht fun _ =>
    knows_of_heldBy h.domestic.wellFormed h.opened)

/-- An entity is made below a namespace of the registry. -/
theorem founded (h : WithinOn r c₀ n c) (hs : (c.entity n).isSpace = true) {name : Value}
    {form : Registry → Form} (hform : ∀ home, (form home).IsNew) :
    WithinOn r c₀ ⟨c.entities.size⟩
      (c.founded (c.newEntity { owner? := some n, name } (c.entity n).home form)) := by
  have hset := Entity.settled_eq_of_identity (Entity.identity_eq_of_bare
    (c.bare_founded_self (c.newEntity { owner? := some n, name } (c.entity n).home form)))
  refine ⟨h.toWithin.founded (hform _) h.home ?_ ?_, knows_founded _ _, ?_⟩
  · rw [owner?_newEntity]
    rfl
  · intro m hm
    rw [owner?_newEntity] at hm
    cases hm
    exact ⟨h.knows, hs, h.home⟩
  · exact (Entity.home_eq_of_settled hset).trans h.home

end WithinOn

theorem WithinAt.mono (h : WithinAt r c₀ n c) (hl : Later c c') (hc : Within r c₀ c') :
    WithinAt r c₀ n c' :=
  ⟨h.toWithinOn.mono hl hc, by rw [hl.isSpace h.knows, h.isSpace]⟩

/-- **Loading into a registry stays within it.** -/
theorem Within.walk (r : Registry) (c₀ : Catalog) :
    Manifest.Walk r (Within r c₀) (WithinAt r c₀) (WithinOn r c₀) where
  keeps h := h.toWithin
  made_keeps h := h.toWithin
  root {c} h := by
    obtain ⟨hk, hkind⟩ := h.domestic.wellFormed.root h.opened.lt
    exact ⟨⟨h, hk, h.opened.home_root⟩, isSpace_iff.2 (.inr hkind)⟩
  member {n e c name} h hs := by
    obtain ⟨⟨k, -, hm⟩, hspace⟩ := slot_of_nestedSpace? hs
    have hd := h.domestic
    have hk := hd.wellFormed.knows_slot hm
    have hh := (hd.owner_home hk (hd.slotsHold.owner?_eq hm)).symm.trans h.home
    exact ⟨⟨h.toWithin, hk, hh⟩, hspace⟩
  found {n c name} h := by
    refine ⟨h.toWithinOn.founded h.isSpace fun _ => ⟨rfl, rfl⟩, ?_⟩
    exact Entity.isSpace_eq_of_settled (Entity.settled_eq_of_identity
      (Entity.identity_eq_of_bare (c.bare_founded_self (c.newEntity { owner? := some n, name }
        (c.entity n).home fun _ => .space false {}))))
  make h _ := h.toWithinOn.founded h.isSpace fun _ => trivial
  enter h hh := h.mono (writes_enter h.knows hh).later h.toWithinOn.enter.toWithin
  made_enter h _ := h.enter.toWithin
  touch {n _ _} h ht :=
    h.mono (Write.alter n ht.identity ht.slots).later (h.toWithinOn.touch ht.toTouch).toWithin
  made_touch h ht := h.touch ht.toTouch
  loaded h := h.note _ _

/-- A new entity is made in a registry: below an owner that is at home there, or else without one
and for no other registry. -/
def Origin.AddressedTo (o : Origin) (r : Registry) (c : Catalog) : Prop :=
  match o.owner? with
  | some n => (c.entity n).home = r
  | none => ∀ r', o.registry? = some r' → r' = r

end Catalog

/-! ### Operations within a registry -/

namespace Operation

open Catalog
open DocCatalog.Action (Ends)

variable {c c₀ : Catalog} {r r' : Registry} {op : Operation}

/-- The entities that an operation names. -/
def references : Operation → List EntityId
  | makeEntry o => o.owner?.toList
  | makeSpace o => o.owner?.toList
  | makeMethod o _ => o.owner?.toList
  | register _ e => [e]
  | delete _ e => [e]
  | dismiss n e => [n, e]
  | setScope e _ => [e]
  | setVisibility e _ => [e]
  | setParameters e _ => [e]
  | setExplicit e _ => [e]
  | setDocstring e _ => [e]
  | addFile e _ _ => [e]
  | addAttribute n _ _ read write => n :: (read.toList ++ write.toList)
  | dropAttributes n _ => [n]
  | addAlias n e? _ => n :: e?.toList
  | _ => []

/-- The registries that an operation names. -/
def registries : Operation → List Registry
  | clear r => [r]
  | makeEntry o => o.registry?.toList
  | makeSpace o => o.registry?.toList
  | makeMethod o _ => o.registry?.toList
  | register r _ => [r]
  | delete r _ => [r]
  | ensureNamespace r _ => [r]
  | load r _ => [r]
  | _ => []

/-- An operation is addressed to a registry or to an entity at home there.  To open a registry is
addressed to none. -/
def AddressedTo (r : Registry) (c : Catalog) : Operation → Prop
  | openRegistry _ => False
  | loadFresh _ => False
  | clear r' => r' = r
  | makeEntry o => o.AddressedTo r c
  | makeSpace o => o.AddressedTo r c
  | makeMethod o _ => o.AddressedTo r c
  | register r' _ => r' = r
  | delete r' _ => r' = r
  | dismiss n _ => (c.entity n).home = r
  | setScope e _ => (c.entity e).home = r
  | setVisibility e _ => (c.entity e).home = r
  | setParameters e _ => (c.entity e).home = r
  | setExplicit e _ => (c.entity e).home = r
  | setDocstring e _ => (c.entity e).home = r
  | addFile e _ _ => (c.entity e).home = r
  | addAttribute n _ _ _ _ => (c.entity n).home = r
  | dropAttributes n _ => (c.entity n).home = r
  | addAlias n _ _ => (c.entity n).home = r
  | ensureNamespace r' _ => r' = r
  | load r' _ => r' = r

/-! ### Making entities -/

/-- A new entity comes within the registry, if it is made for no other. -/
theorem within_make (h : Within r c₀ c) {o : Origin} {kind : EntityKind} {form : Registry → Form}
    (hform : ∀ home, (form home).IsNew) (ho : o.Known c) (ha : o.AddressedTo r c)
    (hr : ∀ r' ∈ o.registry?.toList, r' = r) :
    (make kind form o).Ends c (fun _ => Within r c₀) fun _ => Within r c₀ := by
  cases hh : c.homeOf? o with
  | none => exact .of_error (make_of_homeless hh) h
  | some home =>
      refine .of_ok (make_of_homeOf? hh)
        (h.founded (x := c.newEntity o home form) (hform _) ?_ ?_ ?_)
      · -- the home is the registry that is given, or else the owner's
        show home = r
        unfold homeOf? at hh
        unfold Origin.AddressedTo at ha
        cases hgiven : o.registry? with
        | some r' =>
            simp only [hgiven, Option.some_or, Option.some.injEq] at hh
            exact hh ▸ hr r' (by simp [hgiven])
        | none =>
            simp only [hgiven, Option.none_or, Option.map_eq_some_iff] at hh
            obtain ⟨n, hn, rfl⟩ := hh
            simpa [hn] using ha
      · rw [owner?_newEntity]
        rfl
      · intro n hn
        rw [owner?_newEntity] at hn
        unfold Origin.AddressedTo at ha
        rw [hn] at ha
        exact ⟨(ho.owner n hn).1, (ho.owner n hn).2, ha⟩

/-! ### Operations -/

/-- **An operation on a registry that names known entities, and no other registry, stays within
it**, whether it succeeds or fails. -/
theorem within (h : Within r c₀ c) (hg : op.Granted c) (ha : op.AddressedTo r c)
    (hk : ∀ d ∈ op.references, c.Knows d) (hr : ∀ r' ∈ op.registries, r' = r) :
    op.action.Ends c (fun _ => Within r c₀) fun _ => Within r c₀ := by
  have hdrop : ∀ {α : Type} {a : Action α}, a.Ends c (fun _ => Within r c₀) (fun _ => Within r c₀) →
      (do let _ ← a : Action Unit).Ends c (fun _ => Within r c₀) fun _ => Within r c₀ :=
    fun ha => ha.bind fun _ _ hc => .pure hc
  have hmethod : ∀ {e : EntityId} {f : MethodFields → MethodFields}, c.Knows e →
      (c.entity e).home = r → (∀ m, (f m).scope = m.scope) →
      Within r c₀ (c.update e fun x => x.updateMethod f) := fun hk hh hf =>
    h.update hk hh (.updateMethod hf) fun _ (hd : False) => hd.elim
  cases op with
  | openRegistry config => exact ha.elim
  | clear r' => exact .change (ha ▸ h.clear)
  | makeEntry o => exact hdrop (within_make h (fun _ => trivial) hg ha hr)
  | makeSpace o => exact hdrop (within_make h (fun _ => ⟨rfl, rfl⟩) hg ha hr)
  | makeMethod o scope =>
      refine hdrop ?_
      unfold Catalog.makeMethod
      split
      · exact .throw h
      · exact within_make h (fun _ => trivial) hg ha hr
  | register r' e =>
      obtain rfl : r' = r := ha
      refine .get ?_
      split
      · next hh => exact .set (h.enter hg.2 hh)
      · exact .throw h
  | delete r' e =>
      obtain rfl : r' = r := ha
      exact .change (h.delete hg.2)
  | dismiss n e => exact .change (h.dismiss ha e)
  | setScope e scope =>
      refine .of_run (P := Within r c₀) ?_
      rw [action, setScope_eq]
      split
      · exact h
      · split
        · exact h
        · exact h.rescope hg ha _
  | setVisibility e visibility =>
      show (Catalog.setVisibility e visibility).Ends c _ _
      unfold Catalog.setVisibility
      split
      · exact .throw h
      · exact .change (hmethod (hk e (by simp [references])) ha fun _ => rfl)
  | setParameters e parameters =>
      show (Catalog.setParameters e parameters).Ends c _ _
      unfold Catalog.setParameters
      split
      · exact .throw h
      · exact .change (hmethod (hk e (by simp [references])) ha fun _ => rfl)
  | setExplicit e explicit =>
      exact .change (hmethod (hk e (by simp [references])) ha fun _ => rfl)
  | setDocstring e docstring =>
      exact .change (h.update (hk e (by simp [references])) ha
        (.setDocstring _) fun _ (hd : False) => hd.elim)
  | addFile e file line =>
      exact .change (h.update (hk e (by simp [references])) ha
        (.addFile _ _) fun _ (hd : False) => hd.elim)
  | addAttribute n scope name read write =>
      have hn : c.Knows n := hk n (by simp [references])
      -- the two touches are one after the other, so that what is known stays known
      refine hdrop ((ends_addAttribute (P := fun d => WithinOn r c₀ n d ∧ Later c d) (G := c.Knows)
        (fun hd ht => ⟨hd.1.mono (Write.alter n ht.identity ht.slots).later
          (hd.1.toWithin.update hd.1.knows hd.1.home ht.toTouch fun _ => hd.2.knows),
          hd.2.trans (Write.alter n ht.identity ht.slots).later⟩) scope name ?_ ?_
        ⟨⟨h, hn, ha⟩, .refl c⟩).mono (fun _ _ hd => hd.1.toWithin) fun _ _ hd => hd.1.toWithin)
      · exact fun d hd => hk d (by simp [references, hd])
      · exact fun d hd => hk d (by simp [references, hd])
  | dropAttributes n s =>
      exact .change (h.update (hk n (by simp [references])) ha
        (.setAttributes fun hb => by cases hb) fun _ (hd : False) => hd.elim)
  | addAlias n e? name =>
      exact .change (h.update (hk n (by simp [references])) ha
        (.addAlias (fun _ hd => hd) _)
        fun d (hd : e? = some d) => hk d (by simp [references, hd]))
  | ensureNamespace r' path =>
      obtain rfl : r' = r := ha
      exact hdrop (((Within.walk r' c₀).ends_ensureNamespace h path).mono
        (fun _ _ hn => hn.toWithin) fun _ _ hc => hc)
  | load r' data =>
      obtain rfl : r' = r := ha
      exact (Within.walk r' c₀).ends_load data h
  | loadFresh data => exact ha.elim

end Operation

/-! ### Another registry -/

namespace Catalog

variable {c c' : Catalog} {r r₁ : Registry} {e : EntityId}

/-- A registry is as it was: what it holds, in which order, its root, and all that was at home
there, with members, tables and fields. -/
structure Untouched (r : Registry) (c c' : Catalog) : Prop where
  entries : c'.entries r = c.entries r
  root : c'.root r = c.root r
  entity : ∀ {e}, c.Knows e → (c.entity e).home = r → c'.entity e = c.entity e

theorem Within.untouched (h : Within r c c') (hi : r₁.index ≠ r.index) : Untouched r₁ c c' :=
  ⟨h.entries hi, h.root hi, fun hk hh => h.entity hk fun hr => hi (by rw [← hh, hr])⟩

/-- An answer that is dropped takes nothing back. -/
theorem untouched_drop {α : Type} {a : Action α} (h : Untouched r₁ c (a c).2) :
    Untouched r₁ c ((do let _ ← a : Action Unit) c).2 := by
  have hrun := Action.bind_run a (fun _ => pure ()) c
  rcases hac : a c with ⟨_ | x, d⟩ <;> rw [hac] at hrun h <;> rw [hrun] <;> exact h

/-- Making an entity for whichever registry touches none but that of its owner. -/
theorem untouched_make {o : Origin} (kind : EntityKind) (form : Registry → Form)
    (ha : ∀ n, o.owner? = some n → (c.entity n).home ≠ r₁) :
    Untouched r₁ c (make kind form o c).2 := by
  cases hh : c.homeOf? o with
  | none =>
      rw [make_of_homeless hh]
      exact ⟨rfl, rfl, fun _ _ => rfl⟩
  | some home =>
      rw [make_of_homeOf? hh]
      have hstock := (c.add (c.newEntity o home form)).2.stock_adoptByOwner ⟨c.entities.size⟩
      refine ⟨entries_congr hstock _, root_congr hstock _, fun {e} hk he => ?_⟩
      rw [entity_adoptByOwner_of_ne, entity_add_of_knows _ hk]
      rw [entity_add, if_pos rfl, owner?_newEntity]
      exact fun ho => ha e ho he

end Catalog

namespace Operation

open Catalog

variable {c : Catalog} {r r₁ : Registry} {op : Operation}

/-- **An operation that is addressed to one registry does not touch another.**  An entity that is
made below an owner of the one may well be made for the other; then it comes new to the other. -/
theorem untouched (h : c.Domestic) (hr : c.Opened r) (hi : r₁.index ≠ r.index) (hg : op.Granted c)
    (ha : op.AddressedTo r c) (hk : ∀ d ∈ op.references, c.Knows d) :
    Untouched r₁ c (op.action c).2 := by
  by_cases hregs : ∀ r' ∈ op.registries, r' = r
  · exact (op.within (h.within hr) hg ha hk hregs).run.untouched hi
  -- only an entity that is made below an owner can be for a registry of its own
  have howner : ∀ {o : Origin}, o.AddressedTo r c → ∀ n, o.owner? = some n →
      (c.entity n).home ≠ r₁ := by
    intro o ho n hn hh
    rw [Origin.AddressedTo, hn] at ho
    exact hi (by rw [← hh, ho])
  cases op with
  | makeEntry o => exact untouched_drop (untouched_make _ _ (howner ha))
  | makeSpace o => exact untouched_drop (untouched_make _ _ (howner ha))
  | makeMethod o scope =>
      refine untouched_drop ?_
      unfold Catalog.makeMethod
      cases Scope.ofValue? scope with
      | none => exact ⟨rfl, rfl, fun _ _ => rfl⟩
      | some s => exact untouched_make _ _ (howner ha)
  | clear r' => exact (hregs fun _ hr' => (List.mem_singleton.1 hr').trans ha).elim
  | register r' e => exact (hregs fun _ hr' => (List.mem_singleton.1 hr').trans ha).elim
  | delete r' e => exact (hregs fun _ hr' => (List.mem_singleton.1 hr').trans ha).elim
  | ensureNamespace r' path => exact (hregs fun _ hr' => (List.mem_singleton.1 hr').trans ha).elim
  | load r' data => exact (hregs fun _ hr' => (List.mem_singleton.1 hr').trans ha).elim
  | _ => exact (hregs (by simp [registries])).elim

end Operation

end DocCatalog
