/-
**A namespace lists its own members, each under its own key.**

The counterpart, for the lists of the namespaces, of what holds of the registries.  The key of a
method holds its scope, and when the scope changes the method is moved by its owner from the old key
to the new one; a method that has lost its old slot gets no new one.

Main definitions:

* `Catalog.SlotsHold`: what a namespace lists is owned by it and has the key that it is listed
  under;
* `Catalog.Listed`: the owner of an entity lists it.

Main results:

* `Catalog.Write.slotsHold`: every write keeps the slots;
* `Catalog.SlotsHold.listed_iff`: to be listed by the owner is to be listed at all.
-/

import DocCatalog.Proofs.Catalog.Writes

set_option autoImplicit false

namespace DocCatalog.Catalog

/-- What a namespace lists is owned by it, and has the key that it is listed under. -/
structure SlotsHold (c : Catalog) : Prop where
  owner?_eq : ∀ {n k e}, (c.slots n).get? k = some e → (c.entity e).owner? = some n
  memberKey_eq : ∀ {n k e}, (c.slots n).get? k = some e → (c.entity e).memberKey = k

/-- The owner of an entity lists it, under the key that the entity has now. -/
def Listed (c : Catalog) (e : EntityId) : Prop :=
  ∃ n, (c.entity e).owner? = some n ∧ (c.slots n).get? (c.entity e).memberKey = some e

variable {c c' : Catalog} {e n : EntityId} {k : String × Option Scope}

theorem SlotsHold.listed (hs : c.SlotsHold) (h : (c.slots n).get? k = some e) : c.Listed e :=
  ⟨n, hs.owner?_eq h, by rwa [hs.memberKey_eq h]⟩

/-- To be listed by the owner is to be listed at all. -/
theorem SlotsHold.listed_iff (hs : c.SlotsHold) :
    c.Listed e ↔ ∃ n k, (c.slots n).get? k = some e :=
  ⟨fun ⟨n, _, h⟩ => ⟨n, _, h⟩, fun ⟨_, _, h⟩ => hs.listed h⟩

/-- A catalog that lists no more than one with its slots in order, and in which what is listed has
the identity that it had, has its slots in order. -/
theorem SlotsHold.of_slots (hs : c.SlotsHold)
    (h : ∀ {n k e}, (c'.slots n).get? k = some e →
      (c.slots n).get? k = some e ∧ (c'.entity e).identity = (c.entity e).identity) :
    c'.SlotsHold := by
  constructor
  · intro n k e he
    obtain ⟨he, hi⟩ := h he
    rw [Entity.owner?_eq_of_settled (Entity.settled_eq_of_identity hi)]
    exact hs.owner?_eq he
  · intro n k e he
    obtain ⟨he, hi⟩ := h he
    rw [Entity.memberKey_eq_of_identity hi]
    exact hs.memberKey_eq he

theorem owner?_writeScope (c : Catalog) (e e' : EntityId) (s : Scope) :
    ((c.writeScope e s).entity e').owner? = (c.entity e').owner? :=
  Entity.owner?_eq_of_settled (c.settled_writeScope e e' s)

/-- The owner moves a method along with its scope, so that the list stays in order. -/
theorem SlotsHold.rescope (hs : c.SlotsHold) (s : Scope) :
    ((c.writeScope e s).moveInOwner e (c.entity e).memberKey).SlotsHold := by
  -- a slot is the moved method's, or it was another member's before
  have hcases : ∀ {n k e'},
      (((c.writeScope e s).moveInOwner e (c.entity e).memberKey).slots n).get? k = some e' →
        (e' = e ∧ (c.entity e).owner? = some n ∧ ((c.writeScope e s).entity e).memberKey = k) ∨
        (e ≠ e' ∧ (c.slots n).get? k = some e') := by
    intro n k e' h
    rw [get?_slots_moveInOwner, slots_writeScope, owner?_writeScope] at h
    -- where the method itself is listed, that is under its old key
    have hold : (c.slots n).get? k = some e →
        (c.entity e).owner? = some n ∧ (c.entity e).memberKey = k :=
      fun h => ⟨hs.owner?_eq h, hs.memberKey_eq h⟩
    split at h
    · next hmoved =>
        split at h
        · next hk => exact .inl ⟨(Option.some.inj h).symm, hmoved.1, hk⟩
        · split at h
          · cases h
          · next hk =>
              refine .inr ⟨?_, h⟩
              rintro rfl
              exact hk (hold h).2
    · next hmoved =>
        refine .inr ⟨?_, h⟩
        rintro rfl
        obtain ⟨ho, hk⟩ := hold h
        exact hmoved ⟨ho, by rw [hk, h]⟩
  have hid : ∀ e', (((c.writeScope e s).moveInOwner e (c.entity e).memberKey).entity e').identity =
      ((c.writeScope e s).entity e').identity :=
    fun e' => Entity.identity_eq_of_bare (by simp)
  constructor
  · intro n k e' h
    rw [Entity.owner?_eq_of_settled (Entity.settled_eq_of_identity (hid e')), owner?_writeScope]
    rcases hcases h with ⟨rfl, ho, -⟩ | ⟨-, h⟩
    · exact ho
    · exact hs.owner?_eq h
  · intro n k e' h
    rw [Entity.memberKey_eq_of_identity (hid e')]
    rcases hcases h with ⟨rfl, -, hk⟩ | ⟨hne, h⟩
    · exact hk
    · rw [entity_writeScope_of_ne c s hne]
      exact hs.memberKey_eq h

/-- A new entity without members keeps the slots. -/
theorem SlotsHold.of_push (hc : c.WellFormed) (hs : c.SlotsHold) {x : Entity}
    (hx : c'.entities = c.entities.push x) (hm : x.slots = ∅) : c'.SlotsHold := by
  refine hs.of_slots fun {n k e} h => ?_
  have h := get?_slots_of_push hx hm h
  have hent : c'.entity e = (c.add x).2.entity e := by rw [entity, hx]; rfl
  exact ⟨h, by rw [hent, entity_add_of_knows _ (hc.knows_slot h)]⟩

/-- **Every write keeps the slots.** -/
theorem Write.slotsHold (hc : c.WellFormed) (hs : c.SlotsHold) (h : Write c c') :
    c'.SlotsHold := by
  cases h with
  | note r event => exact hs.of_slots fun h => ⟨h, rfl⟩
  | put he hh => exact hs.of_slots fun h => ⟨h, rfl⟩
  | take r p => exact hs.of_slots fun h => ⟨h, rfl⟩
  | @list e he =>
      have hid : ∀ e', ((c.adoptByOwner e).entity e').identity = (c.entity e').identity :=
        fun e' => Entity.identity_eq_of_bare (by simp)
      have hcases : ∀ {n k e'}, ((c.adoptByOwner e).slots n).get? k = some e' →
          (e' = e ∧ (c.entity e).owner? = some n ∧ (c.entity e).memberKey = k) ∨
          (c.slots n).get? k = some e' := by
        intro n k e' h
        rw [get?_slots_adoptByOwner c n k fun n ho => (hc.knows_owner he ho).2] at h
        split at h
        · next hp => exact .inl ⟨(Option.some.inj h).symm, hp⟩
        · exact .inr h
      constructor
      · intro n k e' h
        rw [Entity.owner?_eq_of_settled (Entity.settled_eq_of_identity (hid e'))]
        rcases hcases h with ⟨rfl, ho, -⟩ | h
        · exact ho
        · exact hs.owner?_eq h
      · intro n k e' h
        rw [Entity.memberKey_eq_of_identity (hid e')]
        rcases hcases h with ⟨rfl, -, hk⟩ | h
        · exact hk
        · exact hs.memberKey_eq h
  | strike n e =>
      refine hs.of_slots fun {n' k e'} h => ⟨?_, Entity.identity_eq_of_bare (by simp)⟩
      rw [get?_slots_dismiss] at h
      split at h
      · cases h
      · exact h
  | rescope s he hr => exact hs.rescope s
  | alter e hi hm =>
      refine hs.of_slots fun {n k e'} h => ?_
      rw [slots_update c e n _ hm] at h
      exact ⟨h, entity_update_congr Entity.identity c e e' _ hi⟩
  | add hx hm hh hl ho => exact hs.of_push hc rfl hm
  | @clear r ho => exact hs.of_push hc (x := newRoot r) rfl rfl
  | openRegistry config =>
      exact hs.of_push hc (x := newRoot (c.openRegistry config).1) rfl rfl

theorem Writes.slotsHold (hc : c.WellFormed) (hs : c.SlotsHold) (h : Writes c c') :
    c'.SlotsHold := by
  induction h with
  | refl => exact hs
  | tail hw h ih => exact h.slotsHold (Writes.wellFormed hc hw) ih

theorem slotsHold_empty : ({} : Catalog).SlotsHold where
  owner?_eq h := by cases h
  memberKey_eq h := by cases h

end DocCatalog.Catalog
