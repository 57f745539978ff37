/-
**A registry holds its own entities, each under its own path.**

The path under which an entity is held is not the entity's: it was computed when the entity was put
there, from a scope that may change, from owners and from separators.  It stays the path of the
entity because a scope changes only while the entity is not held, and nothing else in a path ever
changes. So the invariant is a matter of the single writes, and every session keeps it, inside
changes of path too.

Main definitions:

* `Catalog.KeysHold`: every entry of every registry is the registry's own, under its own path;
* `Session.Sound`: the invariant of sessions, which knows what the changes of path that go on will
  put back.

Main results:

* `Catalog.Write.keysHold`: every write keeps the keys;
* `Session.Reachable.writes`: a session that can be come to consists of writes;
* `Session.held_under_own_path`: **in every session every entry is under its own path**.
-/

import DocCatalog.Catalog.Lookup
import DocCatalog.Proofs.Catalog.Session

set_option autoImplicit false

namespace DocCatalog

namespace Catalog

/-! ### Keys -/

/-- Every registry holds entities of its own only, and each under the path that the entity has now.
-/
structure KeysHold (c : Catalog) : Prop where
  home_index : ∀ {r : Registry} {p e}, (c.entries r).get? p = some e →
    (c.entity e).home.index = r.index
  path_eq : ∀ {r : Registry} {p e}, (c.entries r).get? p = some e → c.path e = p

variable {c c' : Catalog} {r : Registry} {e : EntityId} {p : String}

/-- What is held at all is held by its own registry, under its own path. -/
theorem KeysHold.isRegistered (hk : c.KeysHold) (h : (c.entries r).get? p = some e) :
    c.isRegistered (c.entity e).home e = true := by
  rw [Catalog.isRegistered, c.entries_eq_of_index (hk.home_index h), hk.path_eq h, h,
    decide_eq_true rfl]

/-- A catalog that holds no more entries than one with its keys in order, and in which these have
the identities that they had, has its keys in order. -/
theorem KeysHold.of_entries (hk : c.KeysHold)
    (h : ∀ {r : Registry} {p e}, (c'.entries r).get? p = some e →
      (c.entries r).get? p = some e ∧ (c'.entity e).identity = (c.entity e).identity) :
    c'.KeysHold := by
  constructor
  · intro r p e he
    obtain ⟨he, hi⟩ := h he
    rw [Entity.home_eq_of_settled (Entity.settled_eq_of_identity hi)]
    exact hk.home_index he
  · intro r p e he
    obtain ⟨he, hi⟩ := h he
    rw [path, Entity.path_eq_of_identity hi]
    exact hk.path_eq he

/-- A write to member lists alone keeps the keys. -/
theorem KeysHold.of_bare (hk : c.KeysHold) (hs : ∀ e, (c'.entity e).bare = (c.entity e).bare)
    (hm : c'.stock = c.stock) : c'.KeysHold := by
  refine hk.of_entries fun {r p e} he => ?_
  rw [entries_congr hm] at he
  exact ⟨he, Entity.identity_eq_of_bare (hs e)⟩

/-- The scope of an entity may change while its registry does not hold it. -/
theorem KeysHold.writeScope (hk : c.KeysHold) (hr : c.isRegistered (c.entity e).home e = false)
    (s : Scope) : (c.writeScope e s).KeysHold := by
  refine hk.of_entries fun {r p e'} he => ?_
  rw [entries_congr (c.stock_writeScope e s)] at he
  have hne : e ≠ e' := by
    rintro rfl
    rw [hk.isRegistered he] at hr
    cases hr
  exact ⟨he, by rw [entity_writeScope_of_ne c s hne]⟩

/-- **Every write keeps the keys.** -/
theorem Write.keysHold (hc : c.WellFormed) (hk : c.KeysHold) (h : Write c c') : c'.KeysHold := by
  cases h with
  | note r event => exact ⟨hk.home_index, hk.path_eq⟩
  | @put r e he hh =>
      -- the new entry is as its caller must see to, and the others are old
      have hcases : ∀ {r' : Registry} {p e'}, ((c.put r e).entries r').get? p = some e' →
          (e' = e ∧ r.index = r'.index ∧ c.path e = p) ∨ (c.entries r').get? p = some e' := by
        intro r' p e' h
        rw [get?_entries_put c e r' p (hh ▸ (hc.opened_home he).lt)] at h
        split at h
        · next hp => exact .inl ⟨(Option.some.inj h).symm, hp⟩
        · exact .inr h
      constructor
      · intro r' p e' h
        rcases hcases h with ⟨rfl, hi, -⟩ | h
        · rw [entity_put, hh, hi]
        · exact hk.home_index h
      · intro r' p e' h
        rcases hcases h with ⟨rfl, -, hp⟩ | h
        · exact hp
        · exact hk.path_eq h
  | take r q =>
      refine hk.of_entries fun {r' p e} h => ⟨?_, rfl⟩
      rw [get?_entries_take] at h
      split at h
      · cases h
      · exact h
  | list he => exact hk.of_bare (by simp) (by simp)
  | strike n e => exact hk.of_bare (by simp) (by simp)
  | rescope s he hr => exact (hk.writeScope hr s).of_bare (by simp) (by simp)
  | alter e hi hs =>
      exact hk.of_entries fun h => ⟨h, entity_update_congr Entity.identity c e _ _ hi⟩
  | add hx hs hh hl ho =>
      exact hk.of_entries fun h => ⟨h, by rw [entity_add_of_knows _ (hc.knows_entry h)]⟩
  | @clear r ho =>
      refine hk.of_entries fun {r' p e} h => ?_
      rw [entries_clear r' ho.lt] at h
      split at h
      · cases h
      · exact ⟨h, by rw [entity_clear, entity_add_of_knows _ (hc.knows_entry h)]⟩
  | openRegistry config =>
      refine hk.of_entries fun {r p e} h => ?_
      rw [entries_openRegistry] at h
      split at h
      · cases h
      · exact ⟨h, by rw [entity_openRegistry, entity_add_of_knows _ (hc.knows_entry h)]⟩

theorem Writes.keysHold (hc : c.WellFormed) (hk : c.KeysHold) (h : Writes c c') : c'.KeysHold := by
  induction h with
  | refl => exact hk
  | tail hw h ih => exact h.keysHold (Writes.wellFormed hc hw) ih

/-- Entries belong to the registry that holds them. -/
theorem KeysHold.home (hc : c.WellFormed) (hk : c.KeysHold) (hr : c.Opened r)
    (h : (c.entries r).get? p = some e) : (c.entity e).home = r :=
  (hc.opened_home (hc.knows_entry h)).eq_of_index hr (hk.home_index h)

theorem wellFormed_empty : ({} : Catalog).WellFormed where
  opened_home h := absurd h (Nat.not_lt_zero _)
  root h := absurd h (Nat.not_lt_zero _)
  bare_root h := absurd h (Nat.not_lt_zero _)
  lineage h := absurd h (Nat.not_lt_zero _)
  knows_owner h := absurd h (Nat.not_lt_zero _)
  knows_entry h := by cases h
  knows_slot h := by cases h

theorem keysHold_empty : ({} : Catalog).KeysHold where
  home_index h := by cases h
  path_eq h := by cases h

/-! ### What follows from the keys -/

/-- Every entry of every registry is an entity of the registry, under the path that the entity has.
-/
def Keyed (c : Catalog) : Prop :=
  ∀ r, c.Opened r → ∀ p e, (c.entries r).get? p = some e →
    (c.entity e).home = r ∧ c.path e = p

theorem KeysHold.keyed (hc : c.WellFormed) (hk : c.KeysHold) : c.Keyed :=
  fun _ hr _ _ h => ⟨hk.home hc hr h, hk.path_eq h⟩

/-- An entity is held at most once, in one registry and under one path. -/
theorem KeysHold.unique (hc : c.WellFormed) (hk : c.KeysHold) {r' : Registry} {p' : String}
    (hr : c.Opened r) (hr' : c.Opened r') (h : (c.entries r).get? p = some e)
    (h' : (c.entries r').get? p' = some e) : r = r' ∧ p = p' :=
  ⟨(hk.home hc hr h).symm.trans (hk.home hc hr' h'), (hk.path_eq h).symm.trans (hk.path_eq h')⟩

/-- A registry holds an entity exactly when the entity is among those that it lists. -/
theorem KeysHold.isRegistered_iff (hk : c.KeysHold) :
    c.isRegistered r e = true ↔ e ∈ c.held r [] := by
  have hheld : e ∈ c.held r [] ↔ ∃ p, (c.entries r).get? p = some e := by
    simp only [held, if_true, OrderedTable.values, List.mem_map, Prod.exists,
      OrderedTable.get?_eq_some_iff, exists_eq_right]
  rw [hheld, Catalog.isRegistered, decide_eq_true_eq]
  constructor
  · intro h
    exact ⟨_, h⟩
  · rintro ⟨p, h⟩
    rwa [hk.path_eq h]

/-- While a method gets another scope its registry does not hold it, and has its keys in order at
every point. -/
theorem KeysHold.within_rescope (hc : c.WellFormed) (hk : c.KeysHold) (he : c.Knows e) (s : Scope) :
    let begun := (c.openRekey (c.entity e).home e).2
    begun.Keyed ∧ (begun.writeScope e s).Keyed ∧
      ((begun.writeScope e s).moveInOwner e (c.entity e).memberKey).Keyed := by
  intro begun
  have hbegun : Writes c begun := c.writes_openRekey _ _
  have hent : begun.entity e = c.entity e := c.entity_openRekey _ e e
  have hreg : begun.isRegistered (begun.entity e).home e = false := by
    rw [hent]
    exact c.isRegistered_openRekey _ e
  have hc₁ := hbegun.wellFormed hc
  have hk₁ := hbegun.keysHold hc hk
  have hk₂ : (begun.writeScope e s).KeysHold := hk₁.writeScope hreg s
  have hw := Write.rescope s (hbegun.later.knows he) hreg
  rw [hent] at hw
  refine ⟨hk₁.keyed hc₁, hk₂.keyed ?_, (hw.keysHold hc₁ hk₁).keyed (hw.wellFormed hc₁)⟩
  exact hc₁.writeScope e s

end Catalog

/-! ### Sessions -/

namespace Session

open Catalog

/-- The catalog is in order, and what the changes of path that go on will put back belongs where it
will be put. -/
structure Sound (s : Session) : Prop where
  wellFormed : s.catalog.WellFormed
  keysHold : s.catalog.KeysHold
  blocks : ∀ k ∈ s.blocks, s.catalog.Knows k.entity ∧
    (k.wasRegistered = true → (s.catalog.entity k.entity).home = k.registry)

variable {s s' : Session}

/-- A step consists of writes. -/
theorem Step.writes (hs : s.Sound) (h : Step s s') : Writes s.catalog s'.catalog := by
  cases h with
  | act op h => exact op.writes hs.wellFormed h
  | enter hr hk => exact s.catalog.writes_openRekey _ _
  | @leave k ks h =>
      obtain ⟨hk, hh⟩ := hs.blocks k (by simp [h])
      exact writes_closeRekey hk hh

/-- A step keeps a session sound. -/
theorem Step.sound (hs : s.Sound) (h : Step s s') : s'.Sound := by
  have hw := h.writes hs
  refine ⟨hw.wellFormed hs.wellFormed, hw.keysHold hs.wellFormed hs.keysHold, ?_⟩
  -- what is known of a change of path does not depend on what is done while it goes on
  have hlater : ∀ k ∈ s.blocks, s'.catalog.Knows k.entity ∧
      (k.wasRegistered = true → (s'.catalog.entity k.entity).home = k.registry) := by
    intro k hk
    obtain ⟨he, hh⟩ := hs.blocks k hk
    exact ⟨hw.later.knows he, fun hwas => by rw [hw.later.home he, hh hwas]⟩
  cases h with
  | act op h => exact hlater
  | @enter r e hr he =>
      intro k hk
      rcases List.mem_cons.1 hk with rfl | hk
      · refine ⟨hw.later.knows he, fun hwas => ?_⟩
        have hget : (s.catalog.entries r).get? (s.catalog.path e) = some e := by
          simpa [openRekey, isRegistered] using hwas
        rw [entity_openRekey]
        exact hs.keysHold.home hs.wellFormed hr hget
      · exact hlater k hk
  | leave h => exact fun k hk => hlater k (by simp [h, hk])

theorem sound_empty : ({} : Session).Sound :=
  ⟨wellFormed_empty, keysHold_empty, fun _ h => by cases h⟩

theorem Reachable.sound (h : s.Reachable) : s.Sound := by
  induction h with
  | refl => exact sound_empty
  | tail _ h ih => exact h.sound ih

/-- A session that can be come to consists of writes. -/
theorem Reachable.writes (h : s.Reachable) : Writes {} s.catalog := by
  induction h with
  | refl => exact .refl
  | tail hs h ih => exact ih.trans (h.writes (Reachable.sound hs))

/-- **In every session that can be come to, inside changes of path too, every registry holds its own
entities only, each under the path that the entity has.**  So no entity is held twice, and to be
held is to be listed. -/
theorem held_under_own_path (h : s.Reachable) :
    s.catalog.Keyed ∧
    (∀ r r', s.catalog.Opened r → s.catalog.Opened r' → ∀ p p' e,
      (s.catalog.entries r).get? p = some e → (s.catalog.entries r').get? p' = some e →
        r = r' ∧ p = p') ∧
    (∀ r e, s.catalog.isRegistered r e = true ↔ e ∈ s.catalog.held r []) ∧
    ∀ e scope, s.catalog.Knows e →
      let begun := (s.catalog.openRekey (s.catalog.entity e).home e).2
      begun.Keyed ∧ (begun.writeScope e scope).Keyed ∧
        ((begun.writeScope e scope).moveInOwner e (s.catalog.entity e).memberKey).Keyed := by
  obtain ⟨hc, hk, -⟩ := Reachable.sound h
  refine ⟨hk.keyed hc, ?_, fun r e => hk.isRegistered_iff, ?_⟩
  · exact fun r r' hr hr' p p' e he he' => hk.unique hc hr hr' he he'
  · exact fun e scope he => hk.within_rescope hc he scope

/-- A method of the class that becomes one of the instances while a change of its path goes on. -/
theorem held_under_own_path_rescoped :
    let r : Registry := ⟨0, {}⟩
    let act (s : Session) (op : Operation) : Session :=
      { s with catalog := (op.action s.catalog).2 }
    let s₁ := act {} (.openRegistry {})
    let s₂ := act s₁ (.makeMethod { owner? := some ⟨0⟩, name := .text "run" } (.scope .onClass))
    let s₃ := act s₂ (.register r ⟨1⟩)
    let s₄ : Session := ⟨(s₃.catalog.openRekey r ⟨1⟩).2, [(s₃.catalog.openRekey r ⟨1⟩).1]⟩
    let s₅ := act s₄ (.setScope ⟨1⟩ (.scope .onInstance))
    let s₆ : Session := ⟨s₅.catalog.closeRekey (s₃.catalog.openRekey r ⟨1⟩).1, []⟩
    s₆.Reachable ∧ s₃.catalog.paths r = ["::run"] ∧ s₅.catalog.paths r = [] ∧
      s₆.catalog.path ⟨1⟩ = "#run" := by
  intro r act s₁ s₂ s₃ s₄ s₅ s₆
  have ho₂ : s₂.catalog.Opened r := ⟨by decide +kernel, by decide +kernel, by decide +kernel⟩
  have ho₃ : s₃.catalog.Opened r := ⟨by decide +kernel, by decide +kernel, by decide +kernel⟩
  have ho₆ : s₆.catalog.Opened r := ⟨by decide +kernel, by decide +kernel, by decide +kernel⟩
  have howner : s₁.catalog.Knows ⟨0⟩ ∧ (s₁.catalog.entity ⟨0⟩).isSpace = true := by decide +kernel
  have h₁ : s₁.Reachable := .single (.act (.openRegistry {}) trivial)
  have h₂ : s₂.Reachable :=
    .tail h₁ (.act _ ⟨fun n h => by cases h; exact howner, fun _ h => by cases h⟩)
  have h₃ : s₃.Reachable := .tail h₂ (.act (.register r ⟨1⟩) ⟨ho₂, by decide +kernel⟩)
  have h₄ : s₄.Reachable := .tail h₃ (.enter ho₃ (by decide +kernel))
  have hk₄ : s₄.catalog.Knows ⟨1⟩ := by decide +kernel
  have h₅ : s₅.Reachable := .tail h₄ (.act (.setScope ⟨1⟩ _) hk₄)
  have h₆ : s₆.Reachable := .tail h₅ (.leave rfl)
  refine ⟨h₆, by decide +kernel, by decide +kernel, ?_⟩
  exact ((held_under_own_path h₆).1 r ho₆ "#run" ⟨1⟩ (by decide +kernel)).2

end Session

end DocCatalog
