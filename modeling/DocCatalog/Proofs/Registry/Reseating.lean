/-
**Registering, deleting and giving another scope keep a registry in step.**

Each of these changes the place of one entity only.  A new entity is listed by its owner before it
is registered, and in between the two are out of step; so what is said of registering allows for a
catalog that differs from the one before in that entity, and in whoever had its slot.

Main definitions:

* `Catalog.Retouches`: a change to what identifies neither an entity nor its members;
* `Catalog.Apart`: a catalog that differs from another in one entity and in the slot of that entity.

Main results:

* `Catalog.Lockstep.enter`: registering;
* `Catalog.Lockstep.delete`, `Catalog.Lockstep.rescope`: deleting and giving another scope;
* `Catalog.Lockstep.welcome`: making an entity and registering it.
-/

import DocCatalog.Proofs.Registry.Lockstep

set_option autoImplicit false

namespace DocCatalog.Catalog

variable {c c' c'' : Catalog} {r : Registry} {e n : EntityId} {x : Entity} {s : Scope}

/-! ### Changes that move nothing -/

/-- A change to one entity, to what identifies neither it nor its members. -/
structure Retouches (e : EntityId) (c c' : Catalog) : Prop where
  writes : Writes c c'
  stock : c'.stock = c.stock
  size : c'.entities.size = c.entities.size
  identity : ∀ e', (c'.entity e').identity = (c.entity e').identity
  slots : ∀ n, c'.slots n = c.slots n
  others : ∀ {e'}, e' ≠ e → c'.entity e' = c.entity e'

namespace Retouches

theorem refl (e : EntityId) (c : Catalog) : Retouches e c c :=
  ⟨.refl, rfl, rfl, fun _ => rfl, fun _ => rfl, fun _ => rfl⟩

theorem trans (h : Retouches e c c') (h' : Retouches e c' c'') : Retouches e c c'' where
  writes := h.writes.trans h'.writes
  stock := h'.stock.trans h.stock
  size := h'.size.trans h.size
  identity e' := (h'.identity e').trans (h.identity e')
  slots n := (h'.slots n).trans (h.slots n)
  others hne := (h'.others hne).trans (h.others hne)

theorem update (c : Catalog) (e : EntityId) {f : Entity → Entity}
    (hi : ∀ x, (f x).identity = x.identity) (hs : ∀ x, (f x).slots = x.slots) :
    Retouches e c (c.update e f) where
  writes := .single (.alter e hi hs)
  stock := rfl
  size := c.size_update e f
  identity e' := entity_update_congr Entity.identity c e e' f hi
  slots n := c.slots_update e n f hs
  others {e'} hne := by
    have hi : e.index ≠ e'.index := fun hi => hne (by cases e; cases e'; simp_all)
    simp [Catalog.update, entity, Array.getElem?_modify, hi]

theorem note (c : Catalog) (r : Registry) (event : Event) (e : EntityId) :
    Retouches e c (c.note r event) :=
  ⟨.single (.note r event), rfl, rfl, fun _ => rfl, fun _ => rfl, fun _ => rfl⟩

theorem knows (h : Retouches e c c') {e' : EntityId} : c'.Knows e' ↔ c.Knows e' := by
  rw [Knows, Knows, h.size]

theorem settled (h : Retouches e c c') (e' : EntityId) :
    (c'.entity e').settled = (c.entity e').settled :=
  Entity.settled_eq_of_identity (h.identity e')

theorem path (h : Retouches e c c') (e' : EntityId) : c'.path e' = c.path e' :=
  Entity.path_eq_of_identity (h.identity e')

theorem entries (h : Retouches e c c') (r : Registry) : c'.entries r = c.entries r :=
  entries_congr h.stock r

theorem root (h : Retouches e c c') (r : Registry) : c'.root r = c.root r := root_congr h.stock r

end Retouches

/-- What moves nothing keeps a registry in step. -/
theorem Lockstep.retouch (h : Lockstep r c) (ht : Retouches e c c') : Lockstep r c' := by
  have hl := ht.writes.later
  have hreg : ∀ e', c'.isRegistered r e' = c.isRegistered r e' := fun e' => by
    rw [isRegistered, isRegistered, ht.entries, ht.path]
  refine ⟨⟨ht.writes.wellFormed h.wellFormed, hl.opened h.opened, ?_, ?_, ?_⟩,
    ht.writes.keysHold h.wellFormed h.keysHold, ht.writes.slotsHold h.wellFormed h.slotsHold,
    by rw [ht.entries, h.vacant], ?_⟩
  · intro e' hk hh hne
    rw [Entity.home_eq_of_settled (ht.settled e')] at hh
    rw [ht.root] at hne
    exact ((h.placed (ht.knows.1 hk) hh hne).congr (ht.settled e')).later hl
  · intro e' n hk ho hh
    rw [Entity.owner?_eq_of_settled (ht.settled e')] at ho
    rw [Entity.home_eq_of_settled (ht.settled _)] at hh ⊢
    exact h.owns (ht.knows.1 hk) ho hh
  · intro e' hk hh hkind
    rw [Entity.home_eq_of_settled (ht.settled e')] at hh
    rw [Entity.kind_eq_of_settled (ht.settled e')] at hkind
    rw [hreg]
    exact h.registered (ht.knows.1 hk) hh hkind
  · intro e' hk hh hne
    rw [Entity.home_eq_of_settled (ht.settled e')] at hh
    rw [ht.root] at hne
    rw [hreg, Listed, Entity.owner?_eq_of_settled (ht.settled e'),
      Entity.memberKey_eq_of_identity (ht.identity e')]
    simp only [ht.slots]
    exact h.lock (ht.knows.1 hk) hh hne

/-! ### Registering -/

/-- A catalog that differs from another in one entity, which may be new, and in whoever has the slot
of that entity in its owner. -/
structure Apart (r : Registry) (e : EntityId) (c c' : Catalog) : Prop where
  writes : Writes c c'
  root : c'.root r = c.root r
  others : ∀ {e'}, e' ≠ e → c'.Knows e' →
    c.Knows e' ∧ (c'.entity e').identity = (c.entity e').identity
  entries : c'.entries r = c.entries r
  slots : ∀ {e' n k}, e' ≠ e → ¬ ((c'.entity e).owner? = some n ∧ (c'.entity e).memberKey = k) →
    ((c'.slots n).get? k = some e' ↔ (c.slots n).get? k = some e')

theorem Apart.refl (r : Registry) (e : EntityId) (c : Catalog) : Apart r e c c :=
  ⟨.refl, rfl, fun _ hk => ⟨hk, rfl⟩, rfl, fun _ _ => Iff.rfl⟩

theorem Apart.retouch (h : Apart r e c c') (ht : Retouches e c' c'') : Apart r e c c'' where
  writes := h.writes.trans ht.writes
  root := (ht.root r).trans h.root
  others hne hk := by
    obtain ⟨hk, hi⟩ := h.others hne (ht.knows.1 hk)
    exact ⟨hk, (ht.identity _).trans hi⟩
  entries := (ht.entries r).trans h.entries
  slots hne hplace := by
    rw [Entity.owner?_eq_of_settled (ht.settled e),
      Entity.memberKey_eq_of_identity (ht.identity e)] at hplace
    rw [ht.slots]
    exact h.slots hne hplace

theorem bare_enter (c : Catalog) (r : Registry) (e e' : EntityId) :
    ((c.enter r e).entity e').bare = (c.entity e').bare :=
  (c.put r e).bare_adoptByOwner e e'

theorem identity_enter (c : Catalog) (r : Registry) (e e' : EntityId) :
    ((c.enter r e).entity e').identity = (c.entity e').identity :=
  Entity.identity_eq_of_bare (c.bare_enter r e e')

theorem size_enter (c : Catalog) (r : Registry) (e : EntityId) :
    (c.enter r e).entities.size = c.entities.size :=
  (c.put r e).size_adoptByOwner e

theorem get?_entries_enter (hr : r.index < c.stock.size) (e : EntityId) (p : String) :
    ((c.enter r e).entries r).get? p =
      if c.path e = p then some e else (c.entries r).get? p := by
  have hs : (c.enter r e).stock = (c.put r e).stock := (c.put r e).stock_adoptByOwner e
  rw [entries_congr hs, get?_entries_put c e r p hr]
  simp

theorem get?_slots_enter (r : Registry) (n : EntityId) (k : String × Option Scope)
    (h : ∀ n, (c.entity e).owner? = some n → (c.entity n).isSpace = true) :
    ((c.enter r e).slots n).get? k =
      if (c.entity e).owner? = some n ∧ (c.entity e).memberKey = k then some e
      else (c.slots n).get? k :=
  get?_slots_adoptByOwner (c.put r e) n k h

theorem root_enter (c : Catalog) (r : Registry) (e : EntityId) :
    (c.enter r e).root r = c.root r := by
  have hs : (c.enter r e).stock = (c.put r e).stock := (c.put r e).stock_adoptByOwner e
  rw [root_congr hs, put, root_updateEntries]

/-- Registering an entity seats it, however its owner listed it before. -/
theorem Apart.enter (h : Apart r e c c') (hc : c'.WellFormed) (hk : c'.Knows e)
    (hx : Placed r c (c'.entity e)) : Reseats r e True c (c'.enter r e) := by
  obtain ⟨n, ho, hn, hs, -⟩ := hx.owner
  have hlt : r.index < c'.stock.size := hx.home ▸ (hc.opened_home hk).lt
  have hspace : ∀ m, (c'.entity e).owner? = some m → (c'.entity m).isSpace = true :=
    fun m hm => (hc.knows_owner hk hm).2
  have hid := c'.identity_enter r e e
  have hset := Entity.settled_eq_of_identity hid
  have hp : (c'.enter r e).path e = c'.path e := Entity.path_eq_of_identity hid
  have hown := Entity.owner?_eq_of_settled hset
  have hkey := Entity.memberKey_eq_of_identity hid
  have hw := writes_enter hk hx.home
  refine ⟨h.writes.trans hw, (c'.root_enter r e).trans h.root, hw.later.knows hk,
    hx.congr hset, ?_, ?_, ?_, ?_, ?_⟩
  · intro e' hne hk'
    obtain ⟨hk', hi⟩ := h.others hne (by rwa [Knows, size_enter] at hk')
    exact ⟨hk', (c'.identity_enter r e e').trans hi⟩
  · simp [isRegistered, hp, get?_entries_enter hlt]
  · refine iff_of_true ⟨n, by rw [hown, ho], ?_⟩ trivial
    rw [get?_slots_enter r n _ hspace, hkey, if_pos ⟨ho, rfl⟩]
  · intro e' p hne
    rw [get?_entries_enter hlt, h.entries, hp]
    by_cases hpe : c'.path e = p <;> simp [hpe, Ne.symm hne]
  · intro e' m k hne
    rw [get?_slots_enter r m k hspace, hown, hkey]
    by_cases hplace : (c'.entity e).owner? = some m ∧ (c'.entity e).memberKey = k
    · simp [hplace, Ne.symm hne]
    · simp only [hplace, if_false, h.slots hne hplace, and_false, not_false_eq_true, and_true]

/-- **Registering a method keeps a registry in step.** -/
theorem Lockstep.enter (h : Lockstep r c) (hk : c.Knows e) (hh : (c.entity e).home = r)
    (hkind : (c.entity e).kind = .method) : Lockstep r (c.enter r e) := by
  have hx := h.placed hk hh (h.ne_root_of_kind (.inr hkind))
  have hid := c.identity_enter r e e
  have hkind' := Entity.kind_eq_of_settled (Entity.settled_eq_of_identity hid)
  refine h.reseat ((Apart.refl r e c).enter h.wellFormed hk hx) ?_ fun _ => trivial
  intro _ e' hne' hk' hh' hspace hp
  have hp' : (c.enter r e).path e = c.path e := Entity.path_eq_of_identity hid
  have hy := h.placed hk' hh' (h.ne_root_of_kind (.inl hspace))
  exact h.path_ne_of_method hx hy hkind hspace (hp.trans hp')

/-! ### Deleting -/

theorem get?_slots_dismissByOwner (c : Catalog) (e n : EntityId) (k : String × Option Scope) :
    ((c.dismissByOwner e).slots n).get? k =
      if (c.entity e).owner? = some n ∧ (c.entity e).memberKey = k ∧ (c.slots n).get? k = some e
      then none else (c.slots n).get? k := by
  cases ho : (c.entity e).owner? with
  | none => simp [dismissByOwner, ho]
  | some owner =>
      simp only [dismissByOwner, ho, get?_slots_dismiss, Option.some.injEq]
      by_cases hn : owner = n
      · simp [hn]
      · simp [hn]

theorem stock_dismissByOwner (c : Catalog) (e : EntityId) :
    (c.dismissByOwner e).stock = c.stock := by
  unfold dismissByOwner
  split <;> simp

theorem size_dismissByOwner (c : Catalog) (e : EntityId) :
    (c.dismissByOwner e).entities.size = c.entities.size := by
  unfold dismissByOwner
  split <;> simp

section

variable (hreg : c.isRegistered r e = true)
include hreg

theorem delete_eq : c.delete r e =
    ((c.updateEntries r fun t => t.erase (c.path e)).dismissByOwner e).note r
      (.deleted (c.path e)) := by
  rw [Catalog.delete, if_pos hreg]

theorem stock_delete :
    (c.delete r e).stock = (c.updateEntries r fun t => t.erase (c.path e)).stock := by
  rw [delete_eq hreg]
  exact stock_dismissByOwner _ e

theorem size_delete : (c.delete r e).entities.size = c.entities.size := by
  rw [delete_eq hreg]
  exact size_dismissByOwner _ e

theorem identity_delete (e' : EntityId) :
    ((c.delete r e).entity e').identity = (c.entity e').identity := by
  rw [delete_eq hreg]
  exact Entity.identity_eq_of_bare (bare_dismissByOwner _ e e')

theorem get?_entries_delete (p : String) :
    ((c.delete r e).entries r).get? p = if c.path e = p then none else (c.entries r).get? p := by
  rw [entries_congr (stock_delete hreg), get?_entries_take]
  simp

theorem get?_slots_delete (n : EntityId) (k : String × Option Scope) :
    ((c.delete r e).slots n).get? k =
      if (c.entity e).owner? = some n ∧ (c.entity e).memberKey = k ∧ (c.slots n).get? k = some e
      then none else (c.slots n).get? k := by
  rw [delete_eq hreg]
  exact get?_slots_dismissByOwner (c.updateEntries r fun t => t.erase (c.path e)) e n k

/-- Deleting an entity that is seated unseats it. -/
theorem reseats_delete (hx : Placed r c (c.entity e)) (hk : c.Knows e) :
    Reseats r e False c (c.delete r e) := by
  have hget : (c.entries r).get? (c.path e) = some e := by simpa [isRegistered] using hreg
  have hid := identity_delete hreg
  have hset := Entity.settled_eq_of_identity (hid e)
  have hp : (c.delete r e).path e = c.path e := Entity.path_eq_of_identity (hid e)
  have hw := c.writes_delete r e
  refine ⟨hw, ?_, hw.later.knows hk, hx.congr hset, ?_, ?_, ?_, ?_, ?_⟩
  · rw [root_congr (stock_delete hreg), root_updateEntries]
  · exact fun _ hk' => ⟨by rwa [Knows, size_delete hreg] at hk', hid _⟩
  · simp [isRegistered, hp, get?_entries_delete hreg]
  · refine iff_of_false ?_ not_false
    rintro ⟨m, hm, hslot⟩
    rw [Entity.owner?_eq_of_settled hset] at hm
    rw [Entity.memberKey_eq_of_identity (hid e), get?_slots_delete hreg] at hslot
    simp [hm] at hslot
  · intro e' p hne
    rw [get?_entries_delete hreg]
    by_cases hpe : c.path e = p
    · subst hpe
      simp [hget, Ne.symm hne]
    · simp [hpe]
  · intro e' m k hne
    rw [get?_slots_delete hreg]
    by_cases hm : (c.slots m).get? k = some e
    · simp [hm, Ne.symm hne]
    · simp [hm]

end

/-- **Deleting a method keeps a registry in step.** -/
theorem Lockstep.delete (h : Lockstep r c) (hk : c.Knows e) (hh : (c.entity e).home = r)
    (hkind : (c.entity e).kind = .method) : Lockstep r (c.delete r e) := by
  by_cases hreg : c.isRegistered r e = true
  · have hx := h.placed hk hh (h.ne_root_of_kind (.inr hkind))
    refine h.reseat (reseats_delete hreg hx hk) (fun hf => hf.elim) fun hspace => ?_
    have hset := Entity.settled_eq_of_identity (identity_delete hreg e)
    rw [Entity.kind_eq_of_settled hset, hkind] at hspace
    cases hspace
  · rw [Catalog.delete, if_neg hreg]
    exact h

/-! ### Giving another scope -/

/-- A method with another scope, while its registry does not hold it. -/
def rescoped (c : Catalog) (e : EntityId) (s : Scope) : Catalog :=
  ((c.openRekey (c.entity e).home e).2.writeScope e s).moveInOwner e (c.entity e).memberKey

theorem rescope_eq (c : Catalog) (e : EntityId) (s : Scope) :
    c.rescope e s = (c.rescoped e s).closeRekey (c.openRekey (c.entity e).home e).1 := rfl

@[simp] theorem entity_closeRekey (c : Catalog) (k : Rekeying) (e : EntityId) :
    (c.closeRekey k).entity e = c.entity e := by
  simp only [closeRekey]
  split <;> rfl

theorem size_closeRekey (c : Catalog) (k : Rekeying) :
    (c.closeRekey k).entities.size = c.entities.size := by
  simp only [closeRekey]
  split <;> rfl

theorem root_closeRekey (c : Catalog) (k : Rekeying) (r : Registry) :
    (c.closeRekey k).root r = c.root r := by
  simp only [closeRekey]
  split
  · exact c.root_updateEntries k.registry r fun t => t.insert (c.path k.entity) k.entity
  · rfl

theorem size_openRekey (c : Catalog) (r : Registry) (e : EntityId) :
    (c.openRekey r e).2.entities.size = c.entities.size := by
  simp only [openRekey]
  split <;> rfl

theorem root_openRekey (c : Catalog) (r : Registry) (e : EntityId) (r' : Registry) :
    (c.openRekey r e).2.root r' = c.root r' := by
  simp only [openRekey]
  split
  · exact c.root_updateEntries r r' _
  · rfl

theorem size_rescope (c : Catalog) (e : EntityId) (s : Scope) :
    (c.rescope e s).entities.size = c.entities.size := by
  rw [rescope_eq, size_closeRekey, rescoped]
  simp [size_openRekey]

theorem root_rescope (c : Catalog) (e : EntityId) (s : Scope) (r : Registry) :
    (c.rescope e s).root r = c.root r := by
  rw [rescope_eq, root_closeRekey, rescoped,
    root_congr (stock_moveInOwner _ _ _), root_congr (stock_writeScope _ _ _), root_openRekey]

theorem identity_rescope (c : Catalog) (e e' : EntityId) (s : Scope) :
    ((c.rescope e s).entity e').identity = ((c.writeScope e s).entity e').identity := by
  have hent : ((c.openRekey (c.entity e).home e).2.writeScope e s).entity e' =
      (c.writeScope e s).entity e' := by
    simp only [openRekey]
    split <;> rfl
  rw [rescope_eq, entity_closeRekey, rescoped]
  refine (Entity.identity_eq_of_bare (bare_moveInOwner _ e e' _)).trans ?_
  rw [hent]

theorem entries_closeRekey (c : Catalog) {k : Rekeying} (hk : k.wasRegistered = true)
    (r : Registry) : (c.closeRekey k).entries r = (c.put k.registry k.entity).entries r := by
  simp only [closeRekey, hk, if_true]
  rfl

theorem slots_closeRekey (c : Catalog) (k : Rekeying) (n : EntityId) :
    (c.closeRekey k).slots n = c.slots n := by
  rw [slots, entity_closeRekey, slots]

theorem slots_openRekey (c : Catalog) (r : Registry) (e n : EntityId) :
    (c.openRekey r e).2.slots n = c.slots n := by
  rw [slots, entity_openRekey, slots]

theorem get?_slots_rescope (c : Catalog) (e n : EntityId) (s : Scope)
    (k : String × Option Scope) :
    ((c.rescope e s).slots n).get? k =
      if (c.entity e).owner? = some n ∧ (c.slots n).get? (c.entity e).memberKey = some e then
        if ((c.rescope e s).entity e).memberKey = k then some e
        else if (c.entity e).memberKey = k then none else (c.slots n).get? k
      else (c.slots n).get? k := by
  have hkey : (((c.openRekey (c.entity e).home e).2.writeScope e s).entity e).memberKey =
      ((c.rescope e s).entity e).memberKey := by
    rw [rescope_eq, entity_closeRekey, rescoped]
    exact (Entity.memberKey_eq_of_identity (Entity.identity_eq_of_bare
      (bare_moveInOwner _ e e _))).symm
  rw [rescope_eq, slots_closeRekey, rescoped, get?_slots_moveInOwner, owner?_writeScope,
    entity_openRekey, slots_writeScope, slots_openRekey, hkey]
  rfl

theorem get?_entries_rescope (hh : (c.entity e).home = r) (hr : r.index < c.stock.size) (s : Scope)
    (p : String) :
    ((c.rescope e s).entries r).get? p =
      if c.isRegistered r e = true then
        if (c.rescope e s).path e = p then some e
        else if c.path e = p then none else (c.entries r).get? p
      else (c.entries r).get? p := by
  have hp : (c.rescoped e s).path e = (c.rescope e s).path e := by
    rw [rescope_eq, path, path, entity_closeRekey]
  have hstock : (c.rescoped e s).stock = (c.openRekey r e).2.stock := by
    rw [rescoped, stock_moveInOwner, stock_writeScope, hh]
  have heq : (c.rescope e s).entries r =
      ((c.rescoped e s).closeRekey (c.openRekey r e).1).entries r := by rw [rescope_eq, hh]
  rw [heq]
  by_cases hreg : c.isRegistered r e = true
  · have hbegun : (c.openRekey r e).2 = c.updateEntries r fun t => t.erase (c.path e) := by
      simp [openRekey, hreg]
    have hclosed : ((c.rescoped e s).closeRekey (c.openRekey r e).1).entries r =
        ((c.rescoped e s).put r e).entries r := entries_closeRekey _ hreg r
    have hlt : r.index < (c.rescoped e s).stock.size := by
      rw [hstock, hbegun]
      simpa using hr
    rw [if_pos hreg, hclosed, get?_entries_put _ e r p hlt, hp, entries_congr hstock, hbegun,
      get?_entries_take]
    simp
  · have hbegun : (c.openRekey r e).2 = c := by simp [openRekey, hreg]
    have hclosed : (c.rescoped e s).closeRekey (c.openRekey r e).1 = c.rescoped e s := by
      simp [closeRekey, openRekey, hreg]
    rw [if_neg hreg, hclosed, entries_congr hstock, hbegun]

theorem settled_rescope (c : Catalog) (e e' : EntityId) (s : Scope) :
    ((c.rescope e s).entity e').settled = (c.entity e').settled :=
  (Entity.settled_eq_of_identity (c.identity_rescope e e' s)).trans (c.settled_writeScope e e' s)

/-- Where something is moved from one place to another, the rest stays but for what was at the other
place. -/
theorem moved_eq_some_iff {κ α : Type} [DecidableEq κ] {g : κ → Option α} {old new k : κ} {a b : α}
    (hold : g old = some a) (hne : b ≠ a) :
    (if new = k then some a else if old = k then none else g k) = some b ↔
      g k = some b ∧ new ≠ k := by
  by_cases hnew : new = k
  · simp [hnew, Ne.symm hne]
  · by_cases hk : old = k
    · subst hk
      simp [hnew, hold, Ne.symm hne]
    · simp [hnew, hk]

/-- A method that is given another scope is registered exactly if it was. -/
theorem isRegistered_rescope (h : Lockstep r c) (hh : (c.entity e).home = r) (s : Scope) :
    (c.rescope e s).isRegistered r e = true ↔ c.isRegistered r e = true := by
  rw [isRegistered, decide_eq_true_eq, get?_entries_rescope hh h.opened.lt]
  by_cases hreg : c.isRegistered r e = true
  · simp [hreg]
  · -- an entity that is not registered is held nowhere, whatever its path becomes
    rw [if_neg hreg]
    refine iff_of_false (fun hget => hreg ?_) hreg
    have := h.keysHold.isRegistered hget
    rwa [hh] at this

/-- A method that is given another scope is listed exactly if it was registered. -/
theorem listed_rescope (h : Lockstep r c) (hlock : c.isRegistered r e = true ↔ c.Listed e)
    (s : Scope) : (c.rescope e s).Listed e ↔ c.isRegistered r e = true := by
  have hown := Entity.owner?_eq_of_settled (c.settled_rescope e e s)
  by_cases hreg : c.isRegistered r e = true
  · obtain ⟨n, ho, hslot⟩ := hlock.1 hreg
    refine iff_of_true ⟨n, by rw [hown, ho], ?_⟩ hreg
    rw [get?_slots_rescope, if_pos ⟨ho, hslot⟩, if_pos rfl]
  · refine iff_of_false ?_ hreg
    rintro ⟨n, ho, hslot⟩
    rw [hown] at ho
    have hnot : (c.slots n).get? (c.entity e).memberKey ≠ some e :=
      fun hslot => hreg (hlock.2 ⟨n, ho, hslot⟩)
    rw [get?_slots_rescope, if_neg (fun hm => hnot hm.2)] at hslot
    exact hreg (hlock.2 (h.slotsHold.listed hslot))

/-- Giving a method another scope moves it with its seat, and leaves it without one if it has none. -/
theorem reseats_rescope (h : Lockstep r c) (hk : c.Knows e) (hh : (c.entity e).home = r)
    (hkind : (c.entity e).kind = .method) (s : Scope) :
    Reseats r e (c.isRegistered r e = true) c (c.rescope e s) := by
  have hne := h.ne_root_of_kind (.inr hkind)
  have hlock := h.lock hk hh hne
  have hset := c.settled_rescope e e s
  have hown := Entity.owner?_eq_of_settled hset
  have hw := writes_rescope hk s
  refine ⟨hw, c.root_rescope e s r, hw.later.knows hk, (h.placed hk hh hne).congr hset, ?_,
    isRegistered_rescope h hh s, listed_rescope h hlock s, ?_, ?_⟩
  · intro e' hne' hk'
    refine ⟨by rwa [Knows, size_rescope] at hk', ?_⟩
    rw [identity_rescope, entity_writeScope_of_ne c s (Ne.symm hne')]
  · intro e' p hne'
    rw [get?_entries_rescope hh h.opened.lt]
    by_cases hreg : c.isRegistered r e = true
    · have hget : (c.entries r).get? (c.path e) = some e := by simpa [isRegistered] using hreg
      rw [if_pos hreg, moved_eq_some_iff hget hne']
      simp [hreg]
    · simp [hreg]
  · intro e' n k hne'
    rw [get?_slots_rescope, hown]
    by_cases hreg : c.isRegistered r e = true
    · obtain ⟨m, ho, hslot⟩ := hlock.1 hreg
      by_cases hn : (c.entity e).owner? = some n
      · obtain rfl : m = n := Option.some.inj (ho.symm.trans hn)
        rw [if_pos ⟨hn, hslot⟩, moved_eq_some_iff hslot hne']
        simp [hreg, hn]
      · simp [hn]
    · have hnot : ¬ ((c.entity e).owner? = some n ∧
          (c.slots n).get? (c.entity e).memberKey = some e) :=
        fun hm => hreg (hlock.2 ⟨n, hm⟩)
      rw [if_neg hnot]
      simp [hreg]

/-- **Giving a method another scope keeps a registry in step**: whoever has its new place loses it
under the path and with the owner. -/
theorem Lockstep.rescope (h : Lockstep r c) (hk : c.Knows e) (hh : (c.entity e).home = r)
    (hkind : (c.entity e).kind = .method) (s : Scope) : Lockstep r (c.rescope e s) := by
  have hs := reseats_rescope h hk hh hkind s
  have hkind' := Entity.kind_eq_of_settled (c.settled_rescope e e s)
  refine h.reseat hs ?_ fun hspace => ?_
  · intro _ e' _ hk' hh' hspace hp
    have hy := h.placed hk' hh' (h.ne_root_of_kind (.inl hspace))
    exact h.path_ne_of_method hs.placed hy (hkind'.trans hkind) hspace hp
  · rw [hkind', hkind] at hspace
    cases hspace

/-! ### New entities -/

/-- A new entity, listed in its owner and not registered yet. -/
def founded (c : Catalog) (x : Entity) : Catalog :=
  (c.add x).2.adoptByOwner ⟨c.entities.size⟩

theorem knows_founded (c : Catalog) (x : Entity) : (c.founded x).Knows ⟨c.entities.size⟩ := by
  simp [founded, Knows, add]

theorem bare_founded (c : Catalog) (x : Entity) (e : EntityId) :
    ((c.founded x).entity e).bare = if e.index = c.entities.size then x.bare else
      (c.entity e).bare := by
  rw [founded, bare_adoptByOwner, entity_add]
  split <;> rfl

theorem bare_founded_self (c : Catalog) (x : Entity) :
    ((c.founded x).entity ⟨c.entities.size⟩).bare = x.bare := by
  rw [bare_founded, if_pos rfl]

theorem knows_of_founded (hne : e ≠ ⟨c.entities.size⟩) (hk : (c.founded x).Knows e) :
    c.Knows e := by
  have hi : e.index ≠ c.entities.size := fun hi => hne (by cases e; simp_all)
  simp only [founded, Knows, size_adoptByOwner, add, Array.size_push] at hk
  unfold Knows
  omega

theorem slots_add (c : Catalog) (hs : x.slots = ∅) (n : EntityId) :
    (c.add x).2.slots n = c.slots n := by
  rw [slots, slots, entity_add]
  split
  · next hi =>
      have hn : c.entity n = default := by simp [entity, hi]
      rw [hs, hn]
      rfl
  · rfl

theorem writes_founded (hc : c.WellFormed) (hx : Placed r c x) (hs : x.slots = ∅) :
    Writes c (c.founded x) := by
  have hhome : c.Opened x.home := by
    obtain ⟨n, -, hn, -, hh⟩ := hx.owner
    rw [hx.home, ← hh]
    exact hc.opened_home hn
  have hown : ∀ n, x.owner? = some n → c.Knows n ∧ (c.entity n).isSpace = true := by
    obtain ⟨m, ho, hm, hsm, -⟩ := hx.owner
    rintro n hn
    obtain rfl : m = n := Option.some.inj (ho.symm.trans hn)
    exact ⟨hm, hsm⟩
  have hadd : Write c (c.add x).2 :=
    .add (kind_ne_root_of_scope hx.kind) hs hhome hx.lineage hown
  exact .tail (.single hadd) (.list (knows_push rfl))

/-- A new entity that its owner lists has displaced none but whoever had its slot. -/
theorem apart_founded (hc : c.WellFormed) (hx : Placed r c x) (hs : x.slots = ∅) :
    Apart r ⟨c.entities.size⟩ c (c.founded x) := by
  have hstock : (c.founded x).stock = c.stock := stock_adoptByOwner _ _
  have hid := Entity.identity_eq_of_bare (c.bare_founded_self x)
  refine ⟨writes_founded hc hx hs, root_congr hstock r, ?_, entries_congr hstock r, ?_⟩
  · intro e' hne hk
    have hk := knows_of_founded hne hk
    refine ⟨hk, Entity.identity_eq_of_bare ?_⟩
    rw [bare_founded, if_neg (Nat.ne_of_lt hk)]
  · intro e' n k hne hplace
    rw [Entity.owner?_eq_of_settled (Entity.settled_eq_of_identity hid),
      Entity.memberKey_eq_of_identity hid] at hplace
    have hself : (c.add x).2.entity ⟨c.entities.size⟩ = x := by rw [entity_add, if_pos rfl]
    rw [founded, get?_slots_adoptByOwner _ _ _ ?_, hself, if_neg hplace, slots_add c hs]
    intro m hm
    obtain ⟨n, ho, hn, hsn, -⟩ := hx.owner
    rw [hself, ho] at hm
    cases hm
    rwa [entity_add_of_knows x hn]

section

variable (hx : Placed r c x) (ht : Retouches ⟨c.entities.size⟩ (c.founded x) c')
include ht

theorem identity_welcome : (c'.entity ⟨c.entities.size⟩).identity = x.identity :=
  (ht.identity _).trans (Entity.identity_eq_of_bare (c.bare_founded_self x))

theorem path_welcome : c'.path ⟨c.entities.size⟩ = x.path :=
  Entity.path_eq_of_identity (identity_welcome ht)

include hx

/-- What a registry holds when a new entity is registered in it. -/
theorem get?_entries_welcome (hc : c.WellFormed) (p : String) :
    ((c'.enter r ⟨c.entities.size⟩).entries r).get? p =
      if x.path = p then some ⟨c.entities.size⟩ else (c.entries r).get? p := by
  have hstock : c'.stock = c.stock := ht.stock.trans (stock_adoptByOwner _ _)
  have hlt : r.index < c'.stock.size := by
    obtain ⟨n, -, hn, -, hh⟩ := hx.owner
    rw [hstock, ← hh]
    exact (hc.opened_home hn).lt
  rw [get?_entries_enter hlt, path_welcome ht, entries_congr hstock]

/-- **Making an entity and registering it keeps a registry in step**, if no other namespace has the
path of a new namespace. -/
theorem Lockstep.welcome (h : Lockstep r c) (hs : x.slots = ∅)
    (hfree : x.kind = .space → ∀ {e'}, c.Knows e' → (c.entity e').home = r →
      (c.entity e').kind = .space → c.path e' ≠ x.path) :
    Lockstep r (c'.enter r ⟨c.entities.size⟩) := by
  have hset := Entity.settled_eq_of_identity (identity_welcome ht)
  have hap := (apart_founded h.wellFormed hx hs).retouch ht
  have hwf : c'.WellFormed := hap.writes.wellFormed h.wellFormed
  have hr := hap.enter hwf (ht.knows.2 (c.knows_founded x)) (hx.congr hset)
  have hp : (c'.enter r ⟨c.entities.size⟩).path ⟨c.entities.size⟩ = x.path :=
    (Entity.path_eq_of_identity (c'.identity_enter r _ _)).trans (path_welcome ht)
  refine h.reseat hr ?_ fun _ => trivial
  intro _ e' _ hk hh hspace
  rw [hp]
  rcases hx.kind with hkind | hkind
  · exact hfree hkind hk hh hspace
  · have hy := h.placed hk hh (h.ne_root_of_kind (.inl hspace))
    exact h.path_ne_of_method hx hy hkind hspace

end

end DocCatalog.Catalog
