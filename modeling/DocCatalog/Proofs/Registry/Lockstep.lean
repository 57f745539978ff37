/-
**A registry and the lists of its namespaces in step.**

The registry finds an entity by path, its owner finds it by name and scope, and different writes
keep the two up to date.  Where names are plain and every namespace of a registry is registered, the
two are in step: an entity is registered exactly when its owner lists it.  What makes it so is that,
in such a registry, two entities have one path exactly when they have one owner and one key in it,
so that whoever is displaced is displaced in both.

Main definitions:

* `Catalog.Placed`: a namespace or a method with a plain name, below a namespace of its registry;
* `Catalog.Orderly`: a registry of such entities, with all its namespaces registered;
* `Catalog.Lockstep`: an orderly registry in step with the lists of its namespaces;
* `Catalog.Reseats`: a change to the place of one entity only.

Main results:

* `Catalog.Orderly.same_place`: **one path, one owner and one key**;
* `Catalog.Lockstep.reseat`: an entity that is put both under its path and under its key, or taken
  away from both, leaves a registry in step.
-/

import DocCatalog.Proofs.Catalog.Slots
import DocCatalog.Proofs.Path.Rendering
import DocCatalog.Proofs.Registry.Keys

set_option autoImplicit false

namespace DocCatalog.Catalog

variable {c c' : Catalog} {r : Registry} {e n : EntityId} {x y : Entity}

/-! ### Entities in their places -/

/-- A namespace or a method of a registry that has a plain name and is owned by a namespace of the
registry. -/
structure Placed (r : Registry) (c : Catalog) (x : Entity) : Prop where
  home : x.home = r
  kind : x.kind = .space ∨ x.kind = .method
  plain : r.separators.Plain x.name
  lineage : x.lineage = c.lineageOf x.owner?
  owner : ∃ n, x.owner? = some n ∧ c.Knows n ∧ (c.entity n).isSpace = true ∧
    (c.entity n).home = r

/-- A registry of entities in their places, with all its namespaces registered. -/
structure Orderly (r : Registry) (c : Catalog) : Prop where
  wellFormed : c.WellFormed
  opened : c.Opened r
  placed : ∀ {e}, c.Knows e → (c.entity e).home = r → e ≠ c.root r → Placed r c (c.entity e)
  /-- No other registry has entities below namespaces of this one. -/
  owns : ∀ {e n}, c.Knows e → (c.entity e).owner? = some n → (c.entity n).home = r →
    (c.entity e).home = r
  registered : ∀ {e}, c.Knows e → (c.entity e).home = r → (c.entity e).kind = .space →
    c.isRegistered r e = true

theorem kind_ne_root_of_scope (h : x.kind = .space ∨ x.kind = .method) : x.kind ≠ .root := by
  rcases h with h | h <;> simp [h]

theorem isSpace_iff : x.isSpace = true ↔ x.kind = .space ∨ x.kind = .root := by
  simp [Entity.isSpace_eq_kind]

theorem scope?_of_kind_space (h : x.kind = .space) : x.scope? = none := by
  unfold Entity.kind at h
  unfold Entity.scope? Entity.method?
  split at h <;> simp_all

theorem scope?_of_kind_method (h : x.kind = .method) : ∃ s, x.scope? = some s := by
  unfold Entity.kind at h
  unfold Entity.scope? Entity.method?
  split at h
  · simp at h
  · split at h <;> simp at h
  · next m hm => exact ⟨m.scope, by simp [hm]⟩

/-- The path of an owner is that of the owner's members' chain. -/
theorem ownerPath_eq_path (hn : (c.entity n).isSpace = true)
    (hx : x.lineage = c.lineageOf (some n)) : x.ownerPath = c.path n := by
  rw [Entity.ownerPath, hx, path, Entity.path_eq_kind_scope]
  rcases isSpace_iff.1 hn with hk | hk
  · simp [lineageOf, lineagePath, Entity.asAncestor, hk, scope?_of_kind_space hk, Entity.ownerPath]
  · obtain ⟨t, hf⟩ := Entity.kind_eq_root_iff.1 hk
    have hs : (c.entity n).scope? = none := by simp [Entity.scope?, Entity.method?, hf]
    simp [lineageOf, lineagePath, Entity.asAncestor, hk, hs]

theorem Placed.congr (h : Placed r c x) (hs : y.settled = x.settled) : Placed r c y where
  home := (Entity.home_eq_of_settled hs).trans h.home
  kind := by rw [Entity.kind_eq_of_settled hs]; exact h.kind
  plain := by rw [Entity.name_eq_of_settled hs]; exact h.plain
  lineage := by
    rw [Entity.lineage_eq_of_settled hs, Entity.owner?_eq_of_settled hs, h.lineage]
  owner := by rw [Entity.owner?_eq_of_settled hs]; exact h.owner

theorem Placed.later (h : Placed r c x) (hl : Later c c') : Placed r c' x where
  home := h.home
  kind := h.kind
  plain := h.plain
  lineage := by
    obtain ⟨n, ho, hn, -⟩ := h.owner
    rw [h.lineage]
    exact (lineageOf_eq_of_later hl fun m hm => by rw [ho] at hm; cases hm; exact hn).symm
  owner := by
    obtain ⟨n, ho, hn, hs, hh⟩ := h.owner
    exact ⟨n, ho, hl.knows hn, by rw [hl.isSpace hn, hs], by rw [hl.home hn, hh]⟩

namespace Orderly

theorem root_kind (h : Orderly r c) : (c.entity (c.root r)).kind = .root :=
  (h.wellFormed.root h.opened.lt).2

theorem path_root (h : Orderly r c) : c.path (c.root r) = "" := Entity.path_of_root h.root_kind

/-- What has an owner is not the root. -/
theorem ne_root (h : Orderly r c) (ho : (c.entity e).owner? = some n) : e ≠ c.root r := by
  rintro rfl
  have := (h.wellFormed.bare_root h.opened.knows_root h.root_kind).2
  simp [Entity.owner?, this] at ho

theorem ne_root_of_kind (h : Orderly r c)
    (hk : (c.entity e).kind = .space ∨ (c.entity e).kind = .method) : e ≠ c.root r := by
  rintro rfl
  exact kind_ne_root_of_scope hk h.root_kind

/-- An owner that is no root has a plain name. -/
theorem plain_ancestor (h : Orderly r c) (hk : c.Knows n) (hh : (c.entity n).home = r)
    (hr : ((c.entity n).asAncestor n).isRoot = false) : r.separators.Plain (c.entity n).name := by
  refine (h.placed hk hh ?_).plain
  rintro rfl
  simp [Entity.asAncestor, h.root_kind] at hr

/-- A chain of owners in an orderly registry stays in it, and its names are plain. -/
theorem owners (h : Orderly r c) {l : List Ancestor} :
    ∀ {e}, c.Knows e → (c.entity e).home = r → (c.entity e).lineage = l →
      ∀ a ∈ l, a.home = r ∧ (a.isRoot = false → r.separators.Plain a.name) := by
  induction l with
  | nil => simp
  | cons a rest ih =>
      intro e hk hh hl
      have ho : (c.entity e).owner? = some a.id := by simp [Entity.owner?, hl]
      obtain ⟨n, hn, hkn, hs, hhn⟩ := (h.placed hk hh (h.ne_root ho)).owner
      obtain rfl : a.id = n := Option.some.inj (ho.symm.trans hn)
      have hlin := h.wellFormed.lineage hk
      simp only [hl, ho, lineageOf, List.cons.injEq] at hlin
      obtain ⟨ha, hrest⟩ := hlin
      intro b hb
      rcases List.mem_cons.1 hb with rfl | hb
      · rw [ha]
        exact ⟨hhn, h.plain_ancestor hkn hhn⟩
      · exact ih hkn hhn hrest.symm b hb

theorem plainIn (h : Orderly r c) (hx : Placed r c x) : x.PlainIn r := by
  obtain ⟨n, ho, hkn, hs, hhn⟩ := hx.owner
  have hlin := hx.lineage
  rw [ho, lineageOf] at hlin
  have howners : ∀ a ∈ x.lineage, a.home = r ∧ (a.isRoot = false → r.separators.Plain a.name) := by
    intro a ha
    rw [hlin] at ha
    rcases List.mem_cons.1 ha with rfl | ha
    · exact ⟨hhn, h.plain_ancestor hkn hhn⟩
    · exact h.owners hkn hhn rfl a ha
  have hk := kind_ne_root_of_scope hx.kind
  exact ⟨hx.home, fun a ha => (howners a ha).1, fun a ha => (howners a ha).2, fun _ => hx.plain,
    fun hr => absurd hr hk⟩

theorem path_ne_empty (h : Orderly r c) (hx : Placed r c x) : x.path ≠ "" := fun hp =>
  kind_ne_root_of_scope hx.kind ((h.plainIn hx).path_eq_empty_iff.1 hp)

/-- A namespace of an orderly registry is the only one at its path. -/
theorem space_unique (h : Orderly r c) {n n' : EntityId} (hk : c.Knows n) (hk' : c.Knows n')
    (hs : (c.entity n).isSpace = true) (hs' : (c.entity n').isSpace = true)
    (hh : (c.entity n).home = r) (hh' : (c.entity n').home = r) (hp : c.path n = c.path n') :
    n = n' := by
  have hroot : ∀ {m}, c.Knows m → (c.entity m).home = r → c.path m = "" → m = c.root r := by
    intro m hkm hhm hpm
    by_contra hne
    exact h.path_ne_empty (h.placed hkm hhm hne) hpm
  have hheld : ∀ {m}, c.Knows m → (c.entity m).isSpace = true → (c.entity m).home = r →
      m ≠ c.root r → (c.entries r).get? (c.path m) = some m := by
    intro m hkm hsm hhm hne
    have hkind : (c.entity m).kind = .space := by
      have hk := kind_ne_root_of_scope (h.placed hkm hhm hne).kind
      exact (isSpace_iff.1 hsm).resolve_right hk
    simpa [isRegistered] using h.registered hkm hhm hkind
  by_cases hn : n = c.root r
  · exact hn.trans (hroot hk' hh' (by rw [← hp, hn, h.path_root])).symm
  · have hn' : n' ≠ c.root r := fun hn' => hn (hroot hk hh (by rw [hp, hn', h.path_root]))
    have he := hheld hk hs hh hn
    rw [hp, hheld hk' hs' hh' hn'] at he
    exact (Option.some.inj he).symm

/-- **In an orderly registry two entities in their places have one path exactly when they have one
owner and one key in it.** -/
theorem same_place (h : Orderly r c) (hx : Placed r c x) (hy : Placed r c y) :
    x.path = y.path ↔ x.owner? = y.owner? ∧ x.memberKey = y.memberKey := by
  have hpx := h.plainIn hx
  have hpy := h.plainIn hy
  have hex := hpx.path_eq (kind_ne_root_of_scope hx.kind)
  have hey := hpy.path_eq (kind_ne_root_of_scope hy.kind)
  obtain ⟨n, hn, hkn, hsn, hhn⟩ := hx.owner
  obtain ⟨m, hm, hkm, hsm, hhm⟩ := hy.owner
  constructor
  · intro hp
    rw [hex, hey] at hp
    obtain ⟨ho, hname, hscope⟩ := Separators.render_parts (s := r.separators) r.config.distinct
      hpx.ownerNames_plain hpy.ownerNames_plain hx.plain hy.plain hp
    -- the owners have one path, and a namespace is the only one at its path
    have hown : ∀ {z : Entity} {o}, z.PlainIn r → (c.entity o).isSpace = true →
        z.lineage = c.lineageOf (some o) →
        r.separators.spacePath (ownerNames z.lineage) = c.path o := by
      intro z o hz hs hl
      rw [← ownerPath_eq_path hs hl, Entity.ownerPath,
        lineagePath_eq_spacePath fun a ha => by rw [hz.owners_home a ha]]
    rw [hown hpx hsn (hn ▸ hx.lineage), hown hpy hsm (hm ▸ hy.lineage)] at ho
    have hnm : n = m := h.space_unique hkn hkm hsn hsm hhn hhm ho
    exact ⟨by rw [hn, hm, hnm], Prod.ext hname hscope⟩
  · rintro ⟨ho, hk⟩
    obtain ⟨hname, hscope⟩ := Prod.mk.inj hk
    rw [hex, hey, hx.lineage, hy.lineage, ho, hname, hscope]

end Orderly

/-! ### In step -/

/-- An orderly registry in step with the lists of its namespaces: its entities are registered
exactly when their owners list them. -/
structure Lockstep (r : Registry) (c : Catalog) : Prop extends Orderly r c where
  keysHold : c.KeysHold
  slotsHold : c.SlotsHold
  /-- Nothing is registered under the path of the root. -/
  vacant : (c.entries r).get? "" = none
  lock : ∀ {e}, c.Knows e → (c.entity e).home = r → e ≠ c.root r →
    (c.isRegistered r e = true ↔ c.Listed e)

/-- A change to the place of one entity only.  The entity may be new, and its scope may change;
after the change it is seated, both under its path and under its key in its owner, or it is in
neither place.  Whoever had its seat has lost it. -/
structure Reseats (r : Registry) (e : EntityId) (seated : Prop) (c c' : Catalog) : Prop where
  writes : Writes c c'
  root : c'.root r = c.root r
  knows : c'.Knows e
  placed : Placed r c (c'.entity e)
  others : ∀ {e'}, e' ≠ e → c'.Knows e' →
    c.Knows e' ∧ (c'.entity e').identity = (c.entity e').identity
  registered_self : c'.isRegistered r e = true ↔ seated
  listed_self : c'.Listed e ↔ seated
  entries : ∀ {e' p}, e' ≠ e → ((c'.entries r).get? p = some e' ↔
    (c.entries r).get? p = some e' ∧ ¬ (seated ∧ c'.path e = p))
  slots : ∀ {e' n k}, e' ≠ e → ((c'.slots n).get? k = some e' ↔ (c.slots n).get? k = some e' ∧
    ¬ (seated ∧ (c'.entity e).owner? = some n ∧ (c'.entity e).memberKey = k))

/-- A method and a namespace never have one place. -/
theorem Orderly.path_ne_of_method (h : Orderly r c) (hx : Placed r c x) (hy : Placed r c y)
    (hkx : x.kind = .method) (hky : y.kind = .space) : y.path ≠ x.path := by
  intro hp
  obtain ⟨-, hk⟩ := (h.same_place hy hx).1 hp
  obtain ⟨s, hs⟩ := scope?_of_kind_method hkx
  have hscope : y.scope? = x.scope? := congrArg Prod.snd hk
  rw [hs, scope?_of_kind_space hky] at hscope
  cases hscope

namespace Reseats

variable {seated : Prop} {e' : EntityId}

/-- What another entity is, it was before. -/
theorem old (hs : Reseats r e seated c c') (hne : e' ≠ e) (hk : c'.Knows e')
    (hh : (c'.entity e').home = r) : c.Knows e' ∧ (c.entity e').home = r ∧
      (c'.entity e').identity = (c.entity e').identity := by
  obtain ⟨hk, hi⟩ := hs.others hne hk
  rw [Entity.home_eq_of_settled (Entity.settled_eq_of_identity hi)] at hh
  exact ⟨hk, hh, hi⟩

theorem placed_of_home (hs : Reseats r e seated c c') (h : Lockstep r c) (hk : c'.Knows e')
    (hh : (c'.entity e').home = r) (hne : e' ≠ c'.root r) : Placed r c (c'.entity e') := by
  by_cases he : e' = e
  · exact he ▸ hs.placed
  · obtain ⟨hk, hh, hi⟩ := hs.old he hk hh
    exact (h.placed hk hh (hs.root ▸ hne)).congr (Entity.settled_eq_of_identity hi)

/-- What is below an entity of the registry is in the registry. -/
theorem owns (hs : Reseats r e seated c c') (h : Lockstep r c) {n : EntityId} (hk : c'.Knows e')
    (ho : (c'.entity e').owner? = some n) (hh : (c'.entity n).home = r) :
    (c'.entity e').home = r := by
  by_cases he : e' = e
  · exact he ▸ hs.placed.home
  · obtain ⟨hk, hi⟩ := hs.others he hk
    have hset := Entity.settled_eq_of_identity hi
    rw [Entity.owner?_eq_of_settled hset] at ho
    rw [Entity.home_eq_of_settled hset]
    rw [hs.writes.later.home (h.wellFormed.knows_owner hk ho).1] at hh
    exact h.owns hk ho hh

/-- A namespace stays registered, if its path is not that of the new seat. -/
theorem registered_of_ne (hs : Reseats r e seated c c') (h : Lockstep r c) (hne : e' ≠ e)
    (hk : c'.Knows e') (hh : (c'.entity e').home = r) (hkind : (c'.entity e').kind = .space)
    (hfree : seated → c.path e' ≠ c'.path e) : c'.isRegistered r e' = true := by
  obtain ⟨hk, hh, hi⟩ := hs.old hne hk hh
  rw [Entity.kind_eq_of_settled (Entity.settled_eq_of_identity hi)] at hkind
  have hreg : (c.entries r).get? (c.path e') = some e' := by
    simpa [isRegistered] using h.registered hk hh hkind
  have hp : c'.path e' = c.path e' := Entity.path_eq_of_identity hi
  rw [isRegistered, decide_eq_true_eq, hp, hs.entries hne]
  exact ⟨hreg, fun hseat => hfree hseat.1 hseat.2.symm⟩

/-- The seat of another entity is the same in both places, so both lose it or both keep it. -/
theorem lock_of_ne (hs : Reseats r e seated c c') (h : Lockstep r c) (he : e' ≠ e)
    (hk : c'.Knows e') (hh : (c'.entity e').home = r) (hne : e' ≠ c'.root r) :
    c'.isRegistered r e' = true ↔ c'.Listed e' := by
  have hplace := h.same_place hs.placed (hs.placed_of_home h hk hh hne)
  obtain ⟨hk, hh, hi⟩ := hs.old he hk hh
  have hlock := h.lock hk hh (hs.root ▸ hne)
  have hp : c'.path e' = c.path e' := Entity.path_eq_of_identity hi
  have ho := Entity.owner?_eq_of_settled (Entity.settled_eq_of_identity hi)
  have hkey := Entity.memberKey_eq_of_identity hi
  rw [isRegistered, decide_eq_true_eq] at hlock ⊢
  rw [hs.entries he, hp, hlock, Listed, Listed]
  rw [ho, hkey] at hplace ⊢
  simp only [hs.slots he]
  change c'.path e = c'.path e' ↔ _ at hplace
  rw [hp] at hplace
  rw [hplace]
  constructor
  · rintro ⟨⟨n, hn, hslot⟩, hseat⟩
    exact ⟨n, hn, hslot, fun hsame => hseat ⟨hsame.1, hsame.2.1.trans hn.symm, hsame.2.2⟩⟩
  · rintro ⟨n, hn, hslot, hseat⟩
    exact ⟨⟨n, hn, hslot⟩, fun hsame => hseat ⟨hsame.1, hsame.2.1.trans hn, hsame.2.2⟩⟩

end Reseats

/-- **An entity that is put both under its path and under its key, or taken away from both, leaves a
registry in step**, if no namespace loses its seat to it or by it. -/
theorem Lockstep.reseat {seated : Prop} (h : Lockstep r c) (hs : Reseats r e seated c c')
    (hfree : seated → ∀ {e'}, e' ≠ e → c.Knows e' → (c.entity e').home = r →
      (c.entity e').kind = .space → c.path e' ≠ c'.path e)
    (hspace : (c'.entity e).kind = .space → seated) : Lockstep r c' := by
  have hl := hs.writes.later
  have hkeys := hs.writes.keysHold h.wellFormed h.keysHold
  refine ⟨⟨hs.writes.wellFormed h.wellFormed, hl.opened h.opened, ?_, hs.owns h, ?_⟩,
    hkeys, hs.writes.slotsHold h.wellFormed h.slotsHold, ?_, ?_⟩
  · exact fun hk hh hne => (hs.placed_of_home h hk hh hne).later hl
  · intro e' hk hh hkind
    by_cases he : e' = e
    · exact he ▸ hs.registered_self.2 (hspace (he ▸ hkind))
    · refine hs.registered_of_ne h he hk hh hkind fun hseat => ?_
      obtain ⟨hk, hh, hi⟩ := hs.old he hk hh
      rw [Entity.kind_eq_of_settled (Entity.settled_eq_of_identity hi)] at hkind
      exact hfree hseat he hk hh hkind
  · refine Option.eq_none_iff_forall_ne_some.2 fun e' he' => ?_
    by_cases he : e' = e
    · exact h.path_ne_empty hs.placed (he ▸ hkeys.path_eq he')
    · simpa [h.vacant] using ((hs.entries he).1 he').1
  · intro e' hk hh hne
    by_cases he : e' = e
    · rw [he, hs.registered_self, hs.listed_self]
    · exact hs.lock_of_ne h he hk hh hne

end DocCatalog.Catalog
