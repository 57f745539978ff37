/-
**Producers that keep to the rules keep a registry in step.**

The rules are those that a manifest keeps by itself: namespaces are made by their paths only, a
method is registered as soon as it is made, and names are plain.  From then on a method may be given
another scope, registered and deleted in any order, also after another has taken its place.

Main definitions:

* `Catalog.LeavesAlone`: work on other registries;
* `Catalog.Disciplined`: one step that keeps to the rules.

Main results:

* `Catalog.lockstep_openRegistry`: a new registry is in step;
* `Catalog.Disciplined.lockstep`: a step that keeps to the rules keeps it in step;
* `Session.registered_iff_listed`: **an entity is registered exactly when its owner lists it, and
  every namespace is registered**.
-/

import DocCatalog.Proofs.Manifest.Entries

set_option autoImplicit false

namespace DocCatalog

namespace Catalog

variable {c c' : Catalog} {r : Registry} {e : EntityId}

/-! ### New registries -/

theorem root_fresh (c : Catalog) (config : Config) :
    (c.openRegistry config).2.root (c.openRegistry config).1 = ⟨c.entities.size⟩ := by
  rw [root_openRegistry]
  exact if_pos rfl

theorem entries_fresh (c : Catalog) (config : Config) :
    (c.openRegistry config).2.entries (c.openRegistry config).1 = ∅ := by
  rw [entries_openRegistry]
  exact if_pos rfl

theorem knows_of_openRegistry {config : Config} (hk : (c.openRegistry config).2.Knows e)
    (hne : e ≠ ⟨c.entities.size⟩) : c.Knows e := by
  have hi : e.index ≠ c.entities.size := fun hi => hne (by cases e; simp_all)
  simp only [Knows, openRegistry, add, Array.size_push] at hk ⊢
  omega

/-- A new registry has nothing but its root. -/
theorem eq_root_of_openRegistry (hc : c.WellFormed) (config : Config)
    (hk : (c.openRegistry config).2.Knows e)
    (hh : ((c.openRegistry config).2.entity e).home = (c.openRegistry config).1) :
    e = (c.openRegistry config).2.root (c.openRegistry config).1 := by
  rw [root_fresh]
  by_contra hne
  -- an older entity belongs to an older registry
  have hold := knows_of_openRegistry hk hne
  rw [entity_openRegistry, entity_add_of_knows _ hold] at hh
  have hlt := (hc.opened_home hold).lt
  rw [hh] at hlt
  exact Nat.lt_irrefl _ hlt

/-- A new registry is in step. -/
theorem lockstep_openRegistry (hc : c.WellFormed) (hk : c.KeysHold) (hs : c.SlotsHold)
    (config : Config) : Lockstep (c.openRegistry config).1 (c.openRegistry config).2 := by
  have hw := Write.openRegistry (c := c) config
  have hwf := hw.wellFormed hc
  have ho := opened_openRegistry (c := c) config
  have hkind := (hwf.root ho.lt).2
  refine ⟨⟨hwf, ho, ?_, ?_, ?_⟩, hw.keysHold hc hk, hw.slotsHold hc hs, ?_, ?_⟩
  · exact fun hk hh hne => absurd (eq_root_of_openRegistry hc config hk hh) hne
  · intro e n hke hown hh
    obtain rfl := eq_root_of_openRegistry hc config (hwf.knows_owner hke hown).1 hh
    by_cases hne : e = ⟨c.entities.size⟩
    · rw [hne, ← root_fresh c config, ho.home_root]
    · -- the root is new, so nothing that was there before is below it
      have hold := knows_of_openRegistry hke hne
      rw [(later_openRegistry config).owner? hold, root_fresh] at hown
      exact absurd (hc.knows_owner hold hown).1 (Nat.lt_irrefl _)
  · intro e hke hh hspace
    rw [eq_root_of_openRegistry hc config hke hh, hkind] at hspace
    cases hspace
  · rw [entries_fresh]
    rfl
  · exact fun hk hh hne => absurd (eq_root_of_openRegistry hc config hk hh) hne

/-! ### Work on other registries -/

/-- Work that changes neither what a registry holds nor its entities, and makes none below them. -/
structure LeavesAlone (r : Registry) (c c' : Catalog) : Prop where
  writes : Writes c c'
  holdings : c'.holdings r = c.holdings r
  kept : ∀ {e}, c.Knows e → (c.entity e).home = r → c'.entity e = c.entity e
  fresh : ∀ {e}, c'.Knows e → ¬ c.Knows e → (c'.entity e).home ≠ r ∧
    ∀ n, (c'.entity e).owner? = some n → (c'.entity n).home ≠ r

/-- Work on other registries keeps a registry in step. -/
theorem Lockstep.alone (h : Lockstep r c) (ha : LeavesAlone r c c') : Lockstep r c' := by
  have hl := ha.writes.later
  have hentries : c'.entries r = c.entries r := congrArg Holdings.entries ha.holdings
  have hroot : c'.root r = c.root r := congrArg Holdings.root ha.holdings
  -- the entities of the registry are as they were
  have hold : ∀ {e}, c'.Knows e → (c'.entity e).home = r →
      c.Knows e ∧ (c.entity e).home = r ∧ c'.entity e = c.entity e := by
    intro e hk hh
    by_cases hko : c.Knows e
    · rw [hl.home hko] at hh
      exact ⟨hko, hh, ha.kept hko hh⟩
    · exact absurd hh (ha.fresh hk hko).1
  have hreg : ∀ {e}, c'.entity e = c.entity e → c'.isRegistered r e = c.isRegistered r e :=
    fun he => by rw [isRegistered, isRegistered, hentries, path, path, he]
  refine ⟨⟨ha.writes.wellFormed h.wellFormed, hl.opened h.opened, ?_, ?_, ?_⟩,
    ha.writes.keysHold h.wellFormed h.keysHold, ha.writes.slotsHold h.wellFormed h.slotsHold,
    by rw [hentries, h.vacant], ?_⟩
  · intro e hk hh hne
    obtain ⟨hk, hh, he⟩ := hold hk hh
    rw [he]
    exact (h.placed hk hh (hroot ▸ hne)).later hl
  · intro e n hk ho hh
    by_cases hko : c.Knows e
    · rw [hl.owner? hko] at ho
      rw [hl.home (h.wellFormed.knows_owner hko ho).1] at hh
      rw [hl.home hko]
      exact h.owns hko ho hh
    · exact absurd hh ((ha.fresh hk hko).2 n ho)
  · intro e hk hh hkind
    obtain ⟨hk, hh, he⟩ := hold hk hh
    rw [hreg he]
    exact h.registered hk hh (he ▸ hkind)
  · intro e hk hh hne
    obtain ⟨hk, hh, he⟩ := hold hk hh
    rw [hroot] at hne
    obtain ⟨n, ho, hkn, -, hhn⟩ := (h.placed hk hh hne).owner
    have hslots : c'.slots n = c.slots n := by rw [slots, slots, ha.kept hkn hhn]
    rw [hreg he, h.lock hk hh hne, Listed, Listed, he]
    simp only [ho, Option.some.injEq, exists_eq_left', hslots]

/-! ### Keeping to the rules -/

/-- One step of producers that keep to the rules of a registry. -/
inductive Disciplined (r : Registry) (c : Catalog) : Catalog → Prop where
  /-- The namespaces of a path are made. -/
  | ensure (path : String) (hp : ∀ name ∈ spaceNames r path, r.separators.Plain name) :
      Disciplined r c (ensureNamespace r path c).2
  /-- A method is made below a namespace, the root included, and registered at once. -/
  | make {o : Origin} {n : EntityId} (scope : Value) (ho : o.owner? = some n) (hk : c.Knows n)
      (hs : (c.entity n).isSpace = true) (hh : (c.entity n).home = r)
      (hr : o.registry? = none ∨ o.registry? = some r) (hp : r.separators.Plain o.name.display) :
      Disciplined r c ((do let e ← makeMethod o scope; register r e : Action Unit) c).2
  /-- A manifest is loaded and accepted. -/
  | load (data : Value)
      (hclean : ∀ part, ∀ entry ∈ Manifest.entriesIn data part, Manifest.Clean r part entry)
      (hok : (Manifest.load r data c).1 = .ok ()) : Disciplined r c (Manifest.load r data c).2
  /-- A method is given another scope, which may be refused. -/
  | setScope {e : EntityId} (scope : Value) (hk : c.Knows e) (hh : (c.entity e).home = r)
      (hm : (c.entity e).kind = .method) : Disciplined r c (setScope e scope c).2
  /-- A method is registered, perhaps again. -/
  | register {e : EntityId} (hk : c.Knows e) (hh : (c.entity e).home = r)
      (hm : (c.entity e).kind = .method) : Disciplined r c (register r e c).2
  /-- A method is deleted, perhaps again. -/
  | delete {e : EntityId} (hk : c.Knows e) (hh : (c.entity e).home = r)
      (hm : (c.entity e).kind = .method) : Disciplined r c (c.delete r e)
  /-- Anything happens in other registries. -/
  | elsewhere {c' : Catalog} (h : LeavesAlone r c c') : Disciplined r c c'

/-- A method that is made and registered at once keeps a registry in step, and so does one that is
refused. -/
theorem Lockstep.make (h : Lockstep r c) {o : Origin} {n : EntityId} (scope : Value)
    (ho : o.owner? = some n) (hk : c.Knows n) (hs : (c.entity n).isSpace = true)
    (hh : (c.entity n).home = r) (hr : o.registry? = none ∨ o.registry? = some r)
    (hp : r.separators.Plain o.name.display) :
    Lockstep r ((do let e ← makeMethod o scope; register r e : Action Unit) c).2 := by
  have hhome : c.homeOf? o = some r := by
    rcases hr with hr | hr <;> simp [homeOf?, hr, ho, hh]
  rcases hmake : makeMethod o scope c with ⟨_ | m, c₁⟩
  · have hsame : c₁ = c := by
      unfold makeMethod at hmake
      cases hscope : Scope.ofValue? scope with
      | none => simp only [hscope] at hmake; cases hmake; rfl
      | some s =>
          simp only [hscope] at hmake
          cases (make_of_homeOf? hhome).symm.trans hmake
    rw [Action.bind_run, hmake, hsame]
    exact h
  · obtain ⟨s, -, rfl, rfl⟩ := Manifest.makeMethod_eq_ok hhome hmake
    have hx := placed_newEntity (o := o) ⟨hk, hs, hh, rfl⟩ ho hp
      (fun home => .method { scope := s, visibility := home.config.visibility }) (.inr rfl)
    have ht := Retouches.refl ⟨c.entities.size⟩ (c.founded (c.newEntity o r fun home =>
      .method { scope := s, visibility := home.config.visibility }))
    have hset := Entity.settled_eq_of_identity (identity_welcome ht)
    have hreg := register_of_home ((Entity.home_eq_of_settled hset).trans hx.home)
    rw [Action.bind_of_ok hmake, hreg]
    exact h.welcome hx ht rfl fun hkind => (by cases hkind)

/-- **A step that keeps to the rules keeps a registry in step.** -/
theorem Disciplined.lockstep (h : Lockstep r c) (hd : Disciplined r c c') : Lockstep r c' := by
  cases hd with
  | ensure path hp =>
      obtain ⟨n, c', hrun, hlock, -⟩ := ensureNamespace_ok h hp
      rw [hrun]
      exact hlock
  | make scope ho hk hs hh hr hp => exact h.make scope ho hk hs hh hr hp
  | load data hclean hok => exact (Manifest.load_ok h hclean (Prod.ext hok rfl)).2.1
  | @setScope e scope hk hh hm =>
      unfold Catalog.setScope
      cases hs : Scope.ofValue? scope with
      | none => exact h
      | some s =>
          change Lockstep r ((if (c.entity e).scope? = some s then _ else _ : Action Unit) c).2
          split
          · exact h
          · exact h.rescope hk hh hm s
  | register hk hh hm =>
      rw [register_of_home hh]
      exact h.enter hk hh hm
  | delete hk hh hm => exact h.delete hk hh hm
  | elsewhere ha => exact h.alone ha

theorem lockstep_of_disciplined (h : Lockstep r c)
    (hrun : Relation.ReflTransGen (Disciplined r) c c') : Lockstep r c' := by
  induction hrun with
  | refl => exact h
  | tail _ hd ih => exact hd.lockstep ih

end Catalog

/-! ### Whole runs -/

namespace Session

open Catalog

/-- **After any run of producers that keep to the rules of a new registry, an entity of the registry
is registered exactly when its owner lists it, and every namespace is registered.** -/
theorem registered_iff_listed {s : Session} (hs : s.Reachable) (config : Config) {c : Catalog}
    (hrun : Relation.ReflTransGen (Disciplined (s.catalog.openRegistry config).1)
      (s.catalog.openRegistry config).2 c) :
    let r := (s.catalog.openRegistry config).1
    ∀ e, c.Knows e → (c.entity e).home = r → e ≠ c.root r →
      ((c.entity e).kind = .space ∨ (c.entity e).kind = .method) ∧
      (c.isRegistered r e = true ↔ ∃ n, (c.entity e).owner? = some n ∧
        (c.tables n).members.get? (c.entity e).memberKey = some e) ∧
      ((c.entity e).kind = .space → c.isRegistered r e = true) := by
  intro r e hk hh hne
  obtain ⟨hwf, hkeys, -⟩ := Reachable.sound hs
  have hslots := (Reachable.writes hs).slotsHold wellFormed_empty slotsHold_empty
  have h := lockstep_of_disciplined (lockstep_openRegistry hwf hkeys hslots config) hrun
  exact ⟨(h.placed hk hh hne).kind, h.lock hk hh hne, h.registered hk hh⟩

/-- A method of the class that becomes one of the instances takes the place of another, which is
then neither registered nor listed. -/
theorem registered_iff_listed_displaced :
    let r : Registry := ⟨0, {}⟩
    let c₀ := (({} : Catalog).openRegistry {}).2
    let c₁ := (ensureNamespace r "Shop" c₀).2
    let total : Origin := { owner? := some ⟨1⟩, name := .text "total" }
    let c₂ := ((do let e ← makeMethod total (.scope .onClass); register r e : Action Unit) c₁).2
    let c₃ := ((do let e ← makeMethod total (.scope .onInstance); register r e : Action Unit) c₂).2
    let c₄ := (setScope ⟨2⟩ (.scope .onInstance) c₃).2
    c₃.isRegistered r ⟨3⟩ = true ∧ c₄.isRegistered r ⟨2⟩ = true ∧
      c₄.isRegistered r ⟨3⟩ = false ∧
      ¬ ∃ n, (c₄.entity ⟨3⟩).owner? = some n ∧
        (c₄.tables n).members.get? (c₄.entity ⟨3⟩).memberKey = some ⟨3⟩ := by
  intro r c₀ c₁ total c₂ c₃ c₄
  have h₁ : Disciplined r c₀ c₁ := .ensure "Shop" (by decide +kernel)
  have h₂ : Disciplined r c₁ c₂ :=
    .make _ rfl (by decide +kernel) (by decide +kernel) (by decide +kernel) (.inl rfl)
      (by decide +kernel)
  have h₃ : Disciplined r c₂ c₃ :=
    .make _ rfl (by decide +kernel) (by decide +kernel) (by decide +kernel) (.inl rfl)
      (by decide +kernel)
  have h₄ : Disciplined r c₃ c₄ :=
    .setScope _ (by decide +kernel) (by decide +kernel) (by decide +kernel)
  have hrun : Relation.ReflTransGen (Disciplined r) c₀ c₄ :=
    (((Relation.ReflTransGen.single h₁).tail h₂).tail h₃).tail h₄
  have hdisplaced : c₄.isRegistered r ⟨3⟩ = false := by decide +kernel
  have hiff := (registered_iff_listed (s := {}) .refl {} hrun ⟨3⟩ (by decide +kernel)
    (by decide +kernel) (by decide +kernel)).2.1
  refine ⟨by decide +kernel, by decide +kernel, hdisplaced, fun hlisted => ?_⟩
  exact absurd (hiff.2 hlisted) (Bool.eq_false_iff.1 hdisplaced)

end Session

end DocCatalog
