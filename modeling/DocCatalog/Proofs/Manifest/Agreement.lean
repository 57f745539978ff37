/-
**A registry and the lists below its root agree, but for one method.**

A registry finds an entity by its path, and from the root along the member lists it is found by
names.  The two agree when whatever is listed below the root is registered, and whatever is
registered is listed by its owner.  A manifest is loaded in steps that keep them so, with one
exception: a method is listed when it is made and registered when all of its entry is found right.
If the entry is found wrong in between, the method stays listed and is not registered, and whoever
had its slot has lost it and stays registered.  Nothing more than that can go wrong.

Main definitions:

* `Catalog.Agrees`: a registry and the lists below its root agree;
* `Catalog.AgreesBut`: they agree but for one method that is listed and not registered;
* `Catalog.Tidy`: a registry in whose lists below the root all names are plain.

Main results:

* `Catalog.AgreesBut.place_unique`: what is listed below the root has its path to itself;
* `Catalog.Agrees.agreesBut`: making a member upsets the agreement by that member only;
* `Catalog.AgreesBut.enter`: registering the member restores it;
* `Manifest.load_agrees`: **loading keeps the agreement, or stops at a description that is refused
  and upsets it by the method described, and by no other**.
-/

import DocCatalog.Proofs.Catalog.Membership
import DocCatalog.Proofs.Manifest.Refusal
import DocCatalog.Proofs.Registry.Discipline

set_option autoImplicit false

namespace DocCatalog

namespace Catalog

open DocCatalog.Action (Ends)

variable {c c' c₀ : Catalog} {r : Registry} {e e' m n n' : EntityId}

/-! ### Agreement -/

/-- What is listed below the root is registered, and what is registered is listed by its owner. -/
structure Agrees (r : Registry) (c : Catalog) : Prop where
  registered : ∀ {n e}, c.Under r n → e ∈ c.members n → c.isRegistered r e = true
  listed : ∀ {n e}, c.isRegistered r e = true → (c.entity e).owner? = some n → e ∈ c.members n

/-- A registry and the lists below its root agree but for one method, which is listed and not
registered; the entity that was listed in its place, if there was one, may still be registered. -/
structure AgreesBut (r : Registry) (n m : EntityId) (c : Catalog) : Prop where
  under : c.Under r n
  stray : m ∈ c.members n
  unregistered : c.isRegistered r m = false
  registered : ∀ {n' e}, c.Under r n' → e ∈ c.members n' → e = m ∨ c.isRegistered r e = true
  listed : ∀ {n' e}, c.isRegistered r e = true → (c.entity e).owner? = some n' →
    e ∈ c.members n' ∨ n' = n ∧ (c.entity e).memberKey = (c.entity m).memberKey

/-- A registry that agrees but for one method does not agree. -/
theorem AgreesBut.not_agrees (h : AgreesBut r n m c) : ¬ Agrees r c := by
  intro ha
  have hm := ha.registered h.under h.stray
  rw [h.unregistered] at hm
  cases hm

/-- A catalog in order, with a registry in whose lists below the root all names are plain. -/
structure Tidy (r : Registry) (c : Catalog) : Prop where
  wellFormed : c.WellFormed
  opened : c.Opened r
  keysHold : c.KeysHold
  slotsHold : c.SlotsHold
  plain : ∀ {n e}, c.Under r n → e ∈ c.members n → r.separators.Plain (c.entity e).name

/-! ### Registries in step -/

namespace Lockstep

variable (h : Lockstep r c)
include h

theorem home_of_under (hn : c.Under r n) : (c.entity n).home = r := by
  induction hn with
  | refl => exact h.opened.home_root
  | tail _ hnests ih =>
      obtain ⟨k, hk⟩ := hnests.1
      exact h.owns (h.wellFormed.knows_slot hk) (h.slotsHold.owner?_eq hk) ih

theorem home_of_member (hn : c.Under r n) (he : e ∈ c.members n) :
    c.Knows e ∧ (c.entity e).home = r ∧ e ≠ c.root r := by
  obtain ⟨k, hk⟩ := mem_members.1 he
  have ho := h.slotsHold.owner?_eq hk
  have hknown := h.wellFormed.knows_slot hk
  exact ⟨hknown, h.owns hknown ho (h.home_of_under hn), h.ne_root ho⟩

/-- A registry that is in step with all its lists agrees with those below its root. -/
theorem agrees : Agrees r c where
  registered {n e} hn he := by
    obtain ⟨hknown, hhome, hne⟩ := h.home_of_member hn he
    obtain ⟨k, hk⟩ := mem_members.1 he
    exact (h.lock hknown hhome hne).2 (h.slotsHold.listed hk)
  listed {n e} hreg ho := by
    have hget := hreg
    rw [isRegistered, decide_eq_true_eq] at hget
    obtain ⟨n', ho', hslot⟩ := (h.lock (h.wellFormed.knows_entry hget)
      (h.keysHold.home h.wellFormed h.opened hget) (h.ne_root ho)).1 hreg
    obtain rfl := Option.some.inj (ho.symm.trans ho')
    exact mem_members.2 ⟨_, hslot⟩

theorem tidy : Tidy r c where
  wellFormed := h.wellFormed
  opened := h.opened
  keysHold := h.keysHold
  slotsHold := h.slotsHold
  plain hn he := by
    obtain ⟨hknown, hhome, hne⟩ := h.home_of_member hn he
    exact (h.placed hknown hhome hne).plain

end Lockstep

/-! ### Changes that move nothing -/

namespace Retouches

variable (ht : Retouches e c c')
include ht

theorem mem_members : e' ∈ c'.members n ↔ e' ∈ c.members n := by
  rw [Catalog.mem_members, Catalog.mem_members, ht.slots]

theorem isRegistered : c'.isRegistered r e' = c.isRegistered r e' := by
  rw [Catalog.isRegistered, Catalog.isRegistered, ht.entries, ht.path]

theorem tidy (h : Tidy r c) : Tidy r c' where
  wellFormed := ht.writes.wellFormed h.wellFormed
  opened := ht.writes.later.opened h.opened
  keysHold := ht.writes.keysHold h.wellFormed h.keysHold
  slotsHold := ht.writes.slotsHold h.wellFormed h.slotsHold
  plain hn he := by
    rw [Entity.name_eq_of_settled (ht.settled _)]
    exact h.plain (ht.under.1 hn) (ht.mem_members.1 he)

theorem agrees (h : Agrees r c) : Agrees r c' where
  registered hn he := by
    rw [ht.isRegistered]
    exact h.registered (ht.under.1 hn) (ht.mem_members.1 he)
  listed hreg ho := by
    rw [ht.isRegistered] at hreg
    rw [Entity.owner?_eq_of_settled (ht.settled _)] at ho
    exact ht.mem_members.2 (h.listed hreg ho)

theorem agreesBut (h : AgreesBut r n m c) : AgreesBut r n m c' where
  under := ht.under.2 h.under
  stray := ht.mem_members.2 h.stray
  unregistered := by rw [ht.isRegistered, h.unregistered]
  registered hn he := by
    rw [ht.isRegistered]
    exact h.registered (ht.under.1 hn) (ht.mem_members.1 he)
  listed hreg ho := by
    rw [ht.isRegistered] at hreg
    rw [Entity.owner?_eq_of_settled (ht.settled _)] at ho
    rw [ht.mem_members, Entity.memberKey_eq_of_identity (ht.identity _),
      Entity.memberKey_eq_of_identity (ht.identity _)]
    exact h.listed hreg ho

end Retouches

/-! ### Listing an entity without members -/

/-- What is listed below the root after an entity without members is listed is this entity, or was
listed before and has kept its slot. -/
theorem Lists.member_cases (hl : Lists r m c c') (hc : c.WellFormed)
    (hbare : ∀ k, (c.slots m).get? k = none) (hn : c'.Under r n) (he : e ∈ c'.members n) :
    e = m ∨ c.Under r n ∧ e ∈ c.members n := by
  obtain ⟨k, hk⟩ := mem_members.1 he
  rw [hl.slots] at hk
  split at hk
  · exact .inl (Option.some.inj hk).symm
  · rcases hl.under_of hc hbare hn with rfl | hn
    · exact nomatch (hbare k).symm.trans hk
    · exact .inr ⟨hn, mem_members.2 ⟨k, hk⟩⟩

/-- Listing an entity with a plain name and without members keeps a registry tidy. -/
theorem Tidy.list (h : Tidy r c) (hl : Lists r m c c') (hbare : ∀ k, (c.slots m).get? k = none)
    (hname : r.separators.Plain (c'.entity m).name) : Tidy r c' where
  wellFormed := hl.writes.wellFormed h.wellFormed
  opened := hl.writes.later.opened h.opened
  keysHold := hl.writes.keysHold h.wellFormed h.keysHold
  slotsHold := hl.writes.slotsHold h.wellFormed h.slotsHold
  plain hn he := by
    rcases hl.member_cases h.wellFormed hbare hn he with rfl | ⟨hn, he⟩
    · exact hname
    · obtain ⟨k, hk⟩ := mem_members.1 he
      rw [hl.writes.later.name (h.wellFormed.knows_slot hk)]
      exact h.plain hn he

/-- **Making a member upsets the agreement by that member only.** -/
theorem Agrees.agreesBut (ha : Agrees r c) (h : Tidy r c) (hl : Lists r m c c')
    (hnew : ¬ c.Knows m) (hstock : c'.stock = c.stock) (hm : Made r n m c') :
    AgreesBut r n m c' := by
  have hentries := entries_congr hstock r
  have hbare := get?_slots_of_not_knows hnew
  have hreg : ∀ {e}, c.Knows e → c'.isRegistered r e = c.isRegistered r e := by
    intro e hk
    have hp : c'.path e = c.path e := Entity.path_eq_of_identity (hl.identity hk)
    rw [isRegistered, isRegistered, hentries, hp]
  -- what is registered was known before
  have hknown : ∀ {e}, c'.isRegistered r e = true → c.Knows e := by
    intro e he
    rw [isRegistered, decide_eq_true_eq, hentries] at he
    exact h.wellFormed.knows_entry he
  constructor
  · exact hm.under
  · exact mem_members.2 ⟨_, by rw [hl.slots, if_pos ⟨hm.owner, rfl⟩]⟩
  · exact Bool.eq_false_iff.2 fun he => hnew (hknown he)
  · intro n' e hn' he
    rcases hl.member_cases h.wellFormed hbare hn' he with rfl | ⟨hn', he⟩
    · exact .inl rfl
    · obtain ⟨k, hk⟩ := mem_members.1 he
      rw [hreg (h.wellFormed.knows_slot hk)]
      exact .inr (ha.registered hn' he)
  · intro n' e he ho
    have hk := hknown he
    rw [hreg hk] at he
    have hid := hl.identity hk
    have hkey := Entity.memberKey_eq_of_identity hid
    rw [Entity.owner?_eq_of_settled (Entity.settled_eq_of_identity hid)] at ho
    obtain ⟨k, hslot⟩ := mem_members.1 (ha.listed he ho)
    have hslotKey := h.slotsHold.memberKey_eq hslot
    by_cases hplace : (c'.entity m).owner? = some n' ∧ (c'.entity m).memberKey = k
    · exact .inr ⟨Option.some.inj (hplace.1.symm.trans hm.owner),
        by rw [hkey, hslotKey, hplace.2]⟩
    · exact .inl (mem_members.2 ⟨k, by rw [hl.slots, if_neg hplace, hslot]⟩)

/-! ### Places below the root -/

/-- The owner of a member, and the chain of its owners. -/
theorem Tidy.owner (h : Tidy r c) (he : e ∈ c.members n) : (c.entity e).owner? = some n ∧
    (c.entity e).lineage = c.lineageOf (some n) ∧ (c.entity e).kind ≠ .root := by
  obtain ⟨k, hk⟩ := mem_members.1 he
  have hknown := h.wellFormed.knows_slot hk
  have ho := h.slotsHold.owner?_eq hk
  refine ⟨ho, by rw [h.wellFormed.lineage hknown, ho], fun hroot => ?_⟩
  -- a root has no owner
  rw [Entity.owner?, (h.wellFormed.bare_root hknown hroot).2] at ho
  cases ho

/-- The chain of owners of what is listed below the root stays in the registry, and its names are
plain. -/
theorem Tidy.owners (h : Tidy r c)
    (hhome : ∀ {n e}, c.Under r n → e ∈ c.members n → (c.entity e).home = r) (hn : c.Under r n) :
    ∀ a ∈ c.lineageOf (some n), a.home = r ∧ (a.isRoot = false → r.separators.Plain a.name) := by
  induction hn with
  | refl =>
      obtain ⟨hk, hkind⟩ := h.wellFormed.root h.opened.lt
      have hroot : c.lineageOf (some (c.root r)) =
          [(c.entity (c.root r)).asAncestor (c.root r)] := by
        rw [lineageOf, (h.wellFormed.bare_root hk hkind).2]
      simp [hroot, Entity.asAncestor, hkind, h.opened.home_root]
  | @tail n m hn hnests ih =>
      have hm : m ∈ c.members n := mem_members.2 hnests.1
      have hlineage : c.lineageOf (some m) =
          (c.entity m).asAncestor m :: c.lineageOf (some n) := by
        rw [lineageOf, (h.owner hm).2.1]
      intro a ha
      rw [hlineage] at ha
      rcases List.mem_cons.1 ha with rfl | ha
      · exact ⟨hhome hn hm, fun _ => h.plain hn hm⟩
      · exact ih a ha

theorem Tidy.plainIn (h : Tidy r c)
    (hhome : ∀ {n e}, c.Under r n → e ∈ c.members n → (c.entity e).home = r) (hn : c.Under r n)
    (he : e ∈ c.members n) : (c.entity e).PlainIn r := by
  obtain ⟨-, hlineage, hkind⟩ := h.owner he
  have howners := h.owners hhome hn
  rw [← hlineage] at howners
  exact ⟨hhome hn he, fun a ha => (howners a ha).1, fun a ha => (howners a ha).2,
    fun _ => h.plain hn he, fun hroot => absurd hroot hkind⟩

/-- What is below one namespace, of one name and of one scope has one path. -/
theorem Tidy.path_eq_of_place (h : Tidy r c) (hk : c.Knows e) (hk' : c.Knows e')
    (ho : (c.entity e).owner? = some n) (ho' : (c.entity e').owner? = some n)
    (hhome : (c.entity e).home = (c.entity e').home)
    (hkey : (c.entity e).memberKey = (c.entity e').memberKey) : c.path e = c.path e' := by
  have hkind : ∀ {e}, c.Knows e → (c.entity e).owner? = some n → (c.entity e).kind ≠ .root := by
    intro e hk ho hroot
    rw [Entity.owner?, (h.wellFormed.bare_root hk hroot).2] at ho
    cases ho
  obtain ⟨hname, hscope⟩ := Prod.mk.inj hkey
  rw [path, path, Entity.path_eq_kind_scope, Entity.path_eq_kind_scope, hname, hscope, hhome,
    if_neg (hkind hk ho), if_neg (hkind hk' ho'), Entity.ownerPath, Entity.ownerPath,
    h.wellFormed.lineage hk, h.wellFormed.lineage hk', ho, ho']

/-- Registering an entity takes away nothing but what has its path, and registers nothing else. -/
theorem isRegistered_enter (hr : r.index < c.stock.size) (hne : e ≠ m) :
    (c.enter r m).isRegistered r e = true ↔ c.isRegistered r e = true ∧ c.path m ≠ c.path e := by
  have hp : (c.enter r m).path e = c.path e := Entity.path_eq_of_identity (c.identity_enter r m e)
  rw [isRegistered, isRegistered, decide_eq_true_eq, decide_eq_true_eq, hp,
    get?_entries_enter hr]
  by_cases hpath : c.path m = c.path e <;> simp [hpath, Ne.symm hne]

namespace AgreesBut

variable (hb : AgreesBut r n m c) (h : Tidy r c) (hm : Made r n m c)
include hb h hm

theorem home {n' : EntityId} (hn : c.Under r n') (he : e ∈ c.members n') :
    (c.entity e).home = r := by
  rcases hb.registered hn he with rfl | hreg
  · exact hm.home
  · rw [isRegistered, decide_eq_true_eq] at hreg
    exact h.keysHold.home h.wellFormed h.opened hreg

/-- A namespace that is found below the root and has a member is the only one at its path. -/
theorem space_unique (hn : c.Under r n') (he : e ∈ c.members n') {n'' : EntityId} {e'' : EntityId}
    (hn' : c.Under r n'') (he' : e'' ∈ c.members n'') (hp : c.path n' = c.path n'') : n' = n'' := by
  -- a namespace with a member is not the new one, so it is the root or registered
  have hcases : ∀ {l e}, c.Under r l → e ∈ c.members l → l = c.root r ∨
      c.path l ≠ "" ∧ (c.entries r).get? (c.path l) = some l := by
    intro l e hl he
    rcases Relation.ReflTransGen.cases_tail hl with rfl | ⟨l', hl', hnests⟩
    · exact .inl rfl
    · have hmem : l ∈ c.members l' := mem_members.2 hnests.1
      refine .inr ⟨fun hpath => ?_, ?_⟩
      · exact (h.owner hmem).2.2 ((h.plainIn (hb.home h hm) hl' hmem).path_eq_empty_iff.1 hpath)
      · rcases hb.registered hl' hmem with rfl | hreg
        · obtain ⟨k, hk⟩ := mem_members.1 he
          exact nomatch (hm.vacant k).symm.trans hk
        · rwa [isRegistered, decide_eq_true_eq] at hreg
  have hroot : c.path (c.root r) = "" := Entity.path_of_root (h.wellFormed.root h.opened.lt).2
  rcases hcases hn he with rfl | ⟨hne, hget⟩ <;> rcases hcases hn' he' with rfl | ⟨hne', hget'⟩
  · rfl
  · exact absurd (hp.symm.trans hroot) hne'
  · exact absurd (hp.trans hroot) hne
  · rw [hp, hget'] at hget
    exact (Option.some.inj hget).symm

/-- **What is listed below the root has its path to itself.** -/
theorem place_unique (hn : c.Under r n') (he : e ∈ c.members n') (hp : c.path m = c.path e) :
    e = m := by
  have hpm := h.plainIn (hb.home h hm) hb.under hb.stray
  have hpe := h.plainIn (hb.home h hm) hn he
  obtain ⟨howners, hkey⟩ := (Entity.path_eq_path_iff hpm hpe).1 hp
  -- the owners have one path, and a namespace with members is the only one at its path
  have hown : ∀ {l e}, c.Under r l → e ∈ c.members l → (c.entity e).PlainIn r →
      r.separators.spacePath (ownerNames (c.entity e).lineage) = c.path l := by
    intro l e hl he hpl
    rw [← ownerPath_eq_path (hl.known h.wellFormed h.opened).2 (h.owner he).2.1, Entity.ownerPath,
      lineagePath_eq_spacePath fun a ha => by rw [hpl.owners_home a ha]]
  have hsame : n = n' := by
    refine hb.space_unique h hm hb.under hb.stray hn he ?_
    rw [← hown hb.under hb.stray hpm, ← hown hn he hpe, howners]
  obtain ⟨k, hk⟩ := mem_members.1 hb.stray
  obtain ⟨k', hk'⟩ := mem_members.1 he
  rw [← hsame, ← h.slotsHold.memberKey_eq hk', ← hkey, h.slotsHold.memberKey_eq hk, hk] at hk'
  exact (Option.some.inj hk').symm

/-- **Registering the member restores the agreement.** -/
theorem enter : Tidy r (c.enter r m) ∧ Agrees r (c.enter r m) := by
  have hl := lists_enter h.wellFormed hm.knows hm.home
  have hidm := c.identity_enter r m m
  have hname := Entity.name_eq_of_settled (Entity.settled_eq_of_identity hidm)
  have hownm := Entity.owner?_eq_of_settled (Entity.settled_eq_of_identity hidm)
  have hkeym := Entity.memberKey_eq_of_identity hidm
  refine ⟨h.list hl hm.vacant (by rw [hname]; exact h.plain hb.under hb.stray), ?_, ?_⟩
  · intro n' e hn' he
    by_cases hem : e = m
    · have hp : (c.enter r m).path m = c.path m := Entity.path_eq_of_identity hidm
      rw [hem, isRegistered, decide_eq_true_eq, get?_entries_enter h.opened.lt, hp, if_pos rfl]
    · rcases hl.member_cases h.wellFormed hm.vacant hn' he with he | ⟨hn', he⟩
      · exact absurd he hem
      · have hreg := (hb.registered hn' he).resolve_left hem
        refine (isRegistered_enter h.opened.lt hem).2 ⟨hreg, fun hp => hem ?_⟩
        exact hb.place_unique h hm hn' he hp
  · intro n' e hreg ho
    by_cases hem : e = m
    · rw [hem, hownm, hm.owner] at ho
      obtain rfl := Option.some.inj ho
      exact mem_members.2 ⟨_, by rw [hem, hl.slots, hownm, if_pos ⟨hm.owner, rfl⟩]⟩
    · obtain ⟨hreg, hpath⟩ := (isRegistered_enter h.opened.lt hem).1 hreg
      have hset := Entity.settled_eq_of_identity (c.identity_enter r m e)
      rw [Entity.owner?_eq_of_settled hset] at ho
      -- what has the place of the member has its path
      have hplace : ¬ ((c.entity m).owner? = some n' ∧
          (c.entity e).memberKey = (c.entity m).memberKey) := by
        rintro ⟨hn', hkey⟩
        rw [isRegistered, decide_eq_true_eq] at hreg
        refine hpath (h.path_eq_of_place hm.knows (h.wellFormed.knows_entry hreg) hn' ho ?_
          hkey.symm)
        rw [hm.home, h.keysHold.home h.wellFormed h.opened hreg]
      rcases hb.listed hreg ho with he | ⟨rfl, hkey⟩
      · obtain ⟨k, hk⟩ := mem_members.1 he
        refine mem_members.2 ⟨k, ?_⟩
        rw [hl.slots, hownm, hkeym, if_neg, hk]
        rintro ⟨hn', hkey⟩
        exact hplace ⟨hn', by rw [h.slotsHold.memberKey_eq hk, hkey]⟩
      · exact absurd ⟨hm.owner, hkey⟩ hplace

end AgreesBut

/-! ### Steps of loading -/

theorem Agrees.home (ha : Agrees r c) (h : Tidy r c) (hn : c.Under r n) :
    (c.entity n).home = r := by
  rcases Relation.ReflTransGen.cases_tail hn with rfl | ⟨l, hl, hnests⟩
  · exact h.opened.home_root
  · have hreg := ha.registered hl (mem_members.2 hnests.1)
    rw [isRegistered, decide_eq_true_eq] at hreg
    exact h.keysHold.home h.wellFormed h.opened hreg

end Catalog

namespace Manifest

open Catalog
open DocCatalog.Action (Ends)

variable {c c' c₀ : Catalog} {r : Registry} {e m n : EntityId} {data : Value} {entry : Fields}
  {part : Part} {fault : Fault}

/-- An entry whose names, as far as it gives any, are plain. -/
structure PlainlyNamed (r : Registry) (part : Part) (entry : Fields) : Prop where
  space : ∀ name ∈ spaceNames r (spaceOf part entry), name ≠ "" → r.separators.Plain name
  name : part = .methods → ∀ name, Value.field? entry "name" = some (.text name) →
    r.separators.Plain name

theorem Clean.plainlyNamed (h : Clean r part entry) : PlainlyNamed r part entry where
  space name hname _ := h.space name hname
  name hpart name hfield := by
    have hname : nameOf entry = name := by simp [nameOf, hfield, Value.text?]
    exact hname ▸ h.name hpart

/-- The method that an entry is about has been made since some earlier time, and a registry and the
lists below its root agree but for this method. -/
structure Stray (r : Registry) (c₀ : Catalog) (entry : Fields) (n m : EntityId) (c : Catalog) : Prop
    extends AgreesBut r n m c where
  new : ¬ c₀.Knows m
  kind : (c.entity m).kind = .method
  name : Value.field? entry "name" = some (.text (c.entity m).name)
  scope : (c.entity m).scope? = scopeOf? entry

theorem Stray.retouch (ht : Retouches e c c') (h : Stray r c₀ entry n m c) :
    Stray r c₀ entry n m c' where
  toAgreesBut := ht.agreesBut h.toAgreesBut
  new := h.new
  kind := (Entity.kind_eq_of_settled (ht.settled m)).trans h.kind
  name := by rw [Entity.name_eq_of_settled (ht.settled m), h.name]
  scope := (Entity.scope?_eq_of_identity (ht.identity m)).trans h.scope

/-- The agreement where loading comes to a namespace. -/
structure InOrder (r : Registry) (c₀ : Catalog) (n : EntityId) (c : Catalog) : Prop where
  tidy : Tidy r c
  agrees : Agrees r c
  later : Later c₀ c
  under : c.Under r n

/-- The agreement where a method is made and not registered yet. -/
structure Pending (r : Registry) (c₀ : Catalog) (entry : Fields) (n m : EntityId) (c : Catalog) :
    Prop where
  tidy : Tidy r c
  later : Later c₀ c
  made : Made r n m c
  stray : Stray r c₀ entry n m c

/-- What is left where loading stops: the agreement, or the agreement but for the method of an entry
that is refused for what it says about the method. -/
def LeftBy (r : Registry) (data : Value) (c₀ : Catalog) (fault : Fault) (c : Catalog) : Prop :=
  Agrees r c ∨ ∃ entry ∈ entriesIn data .methods, ¬ Described entry ∧ Misdescribes entry fault ∧
    ∃ n m, Stray r c₀ entry n m c

/-- Making a member with a plain name. -/
theorem InOrder.ends_make {kind : EntityKind} {form : Registry → Form} {o : Origin}
    (h : InOrder r c₀ n c) (ho : o.owner? = some n) (hr : o.registry? = none)
    (hname : r.separators.Plain o.name.display)
    (hk : ∀ home, (c.newEntity o home form).kind ≠ .root)
    (hs : ∀ home, (c.newEntity o home form).slots = ∅) :
    (make kind form o).Ends c (fun e c' => ¬ c₀.Knows e ∧ Later c₀ c' ∧ Tidy r c' ∧ Made r n e c' ∧
      AgreesBut r n e c' ∧ (c'.entity e).identity = (c.newEntity o r form).identity)
      fun _ _ => False := by
  obtain ⟨e, c', hrun, hnew, hstock, hl, hm, hid⟩ :=
    make_below h.tidy.wellFormed h.tidy.opened h.under (h.agrees.home h.tidy h.under) ho hr hk hs
  have hplain : r.separators.Plain (c'.entity e).name := by
    rw [Entity.name_eq_of_settled (Entity.settled_eq_of_identity hid)]
    exact hname
  exact .of_ok hrun ⟨fun hold => hnew (h.later.knows hold), h.later.trans hl.writes.later,
    h.tidy.list hl (get?_slots_of_not_knows hnew) hplain, hm,
    h.agrees.agreesBut h.tidy hl hnew hstock hm, hid⟩

/-- Registering a member that is made restores the agreement. -/
theorem ends_register (h : Tidy r c) (hlater : Later c₀ c) (hm : Made r n m c)
    (hb : AgreesBut r n m c) : (register r m).Ends c (fun _ c' => InOrder r c₀ (c'.root r) c' ∧
      ((c.entity m).isSpace = true → c'.Under r m)) fun _ _ => False := by
  have hl := lists_enter h.wellFormed hm.knows hm.home
  have hset := Entity.settled_eq_of_identity (c.identity_enter r m m)
  obtain ⟨htidy, hagrees⟩ := hb.enter h hm
  refine .of_ok (register_of_home hm.home)
    ⟨⟨htidy, hagrees, hlater.trans hl.writes.later, .refl⟩, fun hs => ?_⟩
  exact hl.under h.wellFormed hm.under ((Entity.owner?_eq_of_settled hset).trans hm.owner)
    ((Entity.isSpace_eq_of_settled hset).trans hs)

/-- A namespace on the way is made and registered in one go. -/
theorem InOrder.ends_ensureNested {name : String} (h : InOrder r c₀ n c)
    (hname : r.separators.Plain name) :
    (ensureNested r n name).Ends c (InOrder r c₀) fun _ _ => False := by
  refine Ends.get ?_
  split
  · next e he =>
      obtain ⟨⟨k, -, hk⟩, hs⟩ := slot_of_nestedSpace? he
      exact .pure { h with under := h.under.tail ⟨⟨k, hk⟩, hs⟩ }
  · refine .bind (h.ends_make (o := { owner? := some n, name := .text name }) rfl rfl hname
      (fun _ => by simp [newEntity, Entity.kind]) fun _ => rfl) ?_
    rintro e c₁ ⟨-, hlater, htidy, hmade, hbut, hid⟩
    have hs : (c₁.entity e).isSpace = true :=
      Entity.isSpace_eq_of_settled (Entity.settled_eq_of_identity hid)
    refine .bind (ends_register htidy hlater hmade hbut) ?_
    rintro - c₂ ⟨h₂, hunder⟩
    exact .pure { h₂ with under := hunder hs }

/-- A method on the way is made, or its scope is none. -/
theorem InOrder.ends_makeMethod {name : String} (h : InOrder r c₀ n c)
    (hfield : Value.field? entry "name" = some (.text name)) (hname : r.separators.Plain name) :
    (makeMethod { owner? := some n, name := .text name } (scopeField entry)).Ends c
      (fun m c' => ∃ n, Pending r c₀ entry n m c') fun _ c' => c' = c := by
  unfold makeMethod
  split
  · exact .throw rfl
  · next s hscope =>
      refine (h.ends_make (o := { owner? := some n, name := .text name }) rfl rfl hname
        (fun _ => by simp [newEntity, Entity.kind]) fun _ => rfl).mono ?_ fun _ _ hf => hf.elim
      rintro m c' ⟨hnew, hlater, htidy, hmade, hbut, hid⟩
      have hset := Entity.settled_eq_of_identity hid
      refine ⟨n, htidy, hlater, hmade, hbut, hnew, (Entity.kind_eq_of_settled hset).trans rfl, ?_,
        ?_⟩
      · rw [hfield, Entity.name_eq_of_settled hset]
        rfl
      · rw [scopeOf?, hscope, Entity.scope?_eq_of_identity hid]
        rfl

/-- **Loading keeps the agreement, or stops at a description that is refused.** -/
theorem course_inOrder (c₀ : Catalog)
    (hnamed : ∀ part, ∀ entry ∈ entriesIn data part, PlainlyNamed r part entry) :
    Course r data (InOrder r c₀) (fun entry m c => ∃ n, Pending r c₀ entry n m c)
      (LeftBy r data c₀) where
  root h := { h with under := .refl }
  retouch ht h := ⟨ht.tidy h.tidy, ht.agrees h.agrees, h.later.trans ht.writes.later,
    ht.under.2 h.under⟩
  made_retouch ht h := h.imp fun _ h => ⟨ht.tidy h.tidy, h.later.trans ht.writes.later,
    h.made.retouch ht, h.stray.retouch ht⟩
  nested {part entry n c name} hentry hmem hname h :=
    (h.ends_ensureNested ((hnamed part entry hentry).space name hmem hname)).mono
      (fun _ _ h => h) fun _ _ hf => hf.elim
  make {n c entry name} hentry hfield h :=
    (h.ends_makeMethod hfield ((hnamed _ entry hentry).name rfl name hfield)).mono
      (fun _ _ h => h) fun _ _ hc => .inl (hc ▸ h.agrees)
  register := by
    rintro entry m c ⟨n, h⟩
    exact (ends_register h.tidy h.later h.made h.stray.toAgreesBut).mono (fun _ _ h => h.1)
      fun _ _ hf => hf.elim
  malformed _ h := .inl h.agrees
  scope _ _ h := .inl h.agrees
  misdescribed := by
    rintro m c entry fault hentry hno hfault ⟨n, h⟩
    exact .inr ⟨entry, hentry, hno, hfault.misdescribes, n, m, h.stray⟩

/-- A manifest that is loaded leaves in order what was in step. -/
theorem inOrder_of_load (h : Lockstep r c)
    (hnamed : ∀ part, ∀ entry ∈ entriesIn data part, PlainlyNamed r part entry)
    (hrun : load r data c = (.ok (), c')) : InOrder r c (c'.root r) c' :=
  (Action.ends_iff.1 ((course_inOrder c hnamed).ends_load
    ⟨h.tidy, h.agrees, .refl _, .refl⟩)).1 _ _ hrun

/-- A manifest that is loaded into the only registry of a catalog leaves it in order. -/
theorem first_inOrder {config : Config} (data : Value)
    (hnamed : ∀ part, ∀ entry ∈ entriesIn data part, PlainlyNamed ⟨0, config⟩ part entry)
    (hok : (load ⟨0, config⟩ data (({} : Catalog).openRegistry config).2).1.toBool = true) :
    let s : Session := ⟨(load ⟨0, config⟩ data (({} : Catalog).openRegistry config).2).2, []⟩
    s.Reachable ∧ s.catalog.Opened ⟨0, config⟩ ∧
      ∃ c n, InOrder ⟨0, config⟩ c n s.catalog := by
  have ho : (({} : Catalog).openRegistry config).2.Opened ⟨0, config⟩ := opened_openRegistry config
  have h₁ : Session.Reachable ⟨(({} : Catalog).openRegistry config).2, []⟩ :=
    .single (.act (.openRegistry config) trivial)
  obtain ⟨_, hrun⟩ := Action.exists_eq_ok hok
  have horder := inOrder_of_load (lockstep_openRegistry wellFormed_empty keysHold_empty
    slotsHold_empty config) hnamed hrun
  refine ⟨.tail h₁ (.act (.load ⟨0, config⟩ data) ho), ?_, _, _, horder⟩
  exact ((leads_load ho data) (wellFormed_openRegistry wellFormed_empty config)).1.later.opened ho

variable {s : Session}

/-- **Loading keeps a registry and the lists below its root in step, but for one method at most.**
Where they agree and all names are plain, they agree again when the manifest is loaded; and when it
is refused, they agree, or else it was refused for what an entry says about its method, and they
agree but for this method: it is listed and not registered, and all else that is listed below the
root is registered, and all that is registered is listed by its owner, but for what had the slot of
the method. -/
theorem load_agrees (h : s.Reachable) (ho : s.catalog.Opened r) (ha : Agrees r s.catalog)
    (hplain : ∀ n e, s.catalog.Under r n → e ∈ s.catalog.members n →
      r.separators.Plain (s.catalog.entity e).name)
    (hnamed : ∀ part, ∀ entry ∈ entriesIn data part, PlainlyNamed r part entry) :
    (∃ c, load r data s.catalog = (.ok (), c) ∧ Agrees r c) ∨
      ∃ fault c, load r data s.catalog = (.error fault, c) ∧
        (Agrees r c ∨ ∃ entry ∈ entriesIn data .methods,
          ¬ Described entry ∧ Misdescribes entry fault ∧
            ∃ n m, Stray r s.catalog entry n m c) := by
  have hs := Session.Reachable.sound h
  have htidy : Tidy r s.catalog :=
    ⟨hs.wellFormed, ho, hs.keysHold, Session.Reachable.slotsHold h, fun hn he => hplain _ _ hn he⟩
  have hends := (course_inOrder s.catalog hnamed).ends_load ⟨htidy, ha, .refl _, .refl⟩
  unfold Ends at hends
  rcases hrun : load r data s.catalog with ⟨fault | _, c⟩ <;> rw [hrun] at hends
  · exact .inr ⟨fault, c, rfl, hends⟩
  · exact .inl ⟨c, rfl, hends.agrees⟩

/-- A method that is refused for its visibility, in a namespace that has a method of its name. -/
theorem load_agrees_but_total :
    let r : Registry := ⟨0, {}⟩
    let manifest (said : Fields) : Value := .dict [("methods", .list [.dict
      ([("namespace", .text "Shop"), ("name", .text "total")] ++ said)])]
    let s₁ : Session := ⟨(({} : Catalog).openRegistry {}).2, []⟩
    let s : Session := ⟨(load r (manifest []) s₁.catalog).2, []⟩
    let data := manifest [("visibility", .text "secret")]
    s.Reachable ∧ s.catalog.Opened r ∧ Agrees r s.catalog ∧
      ∃ fault c, load r data s.catalog = (.error fault, c) ∧
        (Agrees r c ∨ ∃ entry ∈ entriesIn data .methods,
          ¬ Described entry ∧ Misdescribes entry fault ∧
            ∃ n m, Stray r s.catalog entry n m c) := by
  intro r manifest s₁ s data
  have hgood : ∀ part, ∀ entry ∈ entriesIn (manifest []) part, Clean r part entry := by
    intro part
    cases part <;> decide +kernel
  have hbad : ∀ part, ∀ entry ∈ entriesIn data part, Clean r part entry := by
    intro part
    cases part <;> decide +kernel
  obtain ⟨h, ho, _, _, horder⟩ := first_inOrder (manifest [])
    (fun part entry he => (hgood part entry he).plainlyNamed) (by decide +kernel)
  refine ⟨h, ho, horder.agrees, ?_⟩
  rcases load_agrees h ho horder.agrees (fun _ _ => horder.tidy.plain)
    (fun part entry he => (hbad part entry he).plainlyNamed) with ⟨c, hok, -⟩ | hleft
  · have hfails : (load r data s.catalog).1.toBool = false := by decide +kernel
    rw [hok] at hfails
    cases hfails
  · exact hleft

/-- The registered method has lost its slot to the one that is refused. -/
theorem slot_lost_to_refused :
    let r : Registry := ⟨0, {}⟩
    let manifest (said : Fields) : Value := .dict [("methods", .list [.dict
      ([("namespace", .text "Shop"), ("name", .text "total")] ++ said)])]
    let s₁ : Session := ⟨(({} : Catalog).openRegistry {}).2, []⟩
    let s : Session := ⟨(load r (manifest []) s₁.catalog).2, []⟩
    let data := manifest [("visibility", .text "secret")]
    s.Reachable ∧ Agrees r s.catalog ∧
      (∀ part, ∀ entry ∈ entriesIn data part, PlainlyNamed r part entry) ∧
      s.catalog.members ⟨1⟩ = [⟨2⟩] ∧ s.catalog.isRegistered r ⟨2⟩ = true ∧
      ∃ fault c, load r data s.catalog = (.error fault, c) ∧ ¬ Agrees r c ∧
        c.members ⟨1⟩ = [⟨3⟩] ∧ c.isRegistered r ⟨2⟩ = true ∧ c.isRegistered r ⟨3⟩ = false := by
  intro r manifest s₁ s data
  have hgood : ∀ part, ∀ entry ∈ entriesIn (manifest []) part, Clean r part entry := by
    intro part
    cases part <;> decide +kernel
  have hbad : ∀ part, ∀ entry ∈ entriesIn data part, Clean r part entry := by
    intro part
    cases part <;> decide +kernel
  obtain ⟨h, -, _, _, horder⟩ := first_inOrder (manifest [])
    (fun part entry he => (hgood part entry he).plainlyNamed) (by decide +kernel)
  refine ⟨h, horder.agrees, fun part entry he => (hbad part entry he).plainlyNamed,
    by decide +kernel, by decide +kernel, ?_⟩
  have hfails : (load r data s.catalog).1.toBool = false := by decide +kernel
  have hmembers : (load r data s.catalog).2.members ⟨1⟩ = [⟨3⟩] := by decide +kernel
  have hkept : (load r data s.catalog).2.isRegistered r ⟨2⟩ = true := by decide +kernel
  have hstray : (load r data s.catalog).2.isRegistered r ⟨3⟩ = false := by decide +kernel
  have howner : ((load r data s.catalog).2.entity ⟨2⟩).owner? = some ⟨1⟩ := by decide +kernel
  rcases hrun' : load r data s.catalog with ⟨fault | _, c⟩ <;>
    rw [hrun'] at hfails hmembers hkept hstray howner
  · refine ⟨fault, c, rfl, fun ha => ?_, hmembers, hkept, hstray⟩
    have hlisted := ha.listed hkept howner
    rw [hmembers] at hlisted
    simp at hlisted
  · cases hfails

end Manifest

end DocCatalog
