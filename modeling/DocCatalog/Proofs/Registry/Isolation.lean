/-
**Registries do not see each other.**

Each of several sessions works on a registry of its own and names only entities of that registry,
in any interleaving with the others.  What the others do in between makes the references differ that
a session is given, and nothing else: so its registry ends as if the session had run alone.  The two
runs are compared by a correspondence of the entities of the registry.  A turn of the session itself
keeps it; a turn of another session shifts the references that are still to come, and the
correspondence with them.

Main definitions:

* `Catalog.natives`: the entities of a registry, in the order in which they were made, by which a
  session names them;
* `Turn`, `Shared`: what a session does in its turn, and what all sessions share;
* `Shared.take`, `Shared.play`, `Shared.Plays`: a turn, an interleaving, and one that can be played;
* `Pairing.shift`: a correspondence after another session has made entities;
* `Pairing.Abreast`: a joint run and a run alone at the same point of a session.

Main results:

* `Pairing.Abreast.own`, `Pairing.Abreast.foreign`: what a turn of the session and one of another
  keep;
* `Pairing.Abreast.play`: **the joint run and the run alone stay abreast**;
* `Session.registries_isolated`: an operation on one registry does not touch another, and each
  registry ends as if its session had run alone.
-/

import DocCatalog.Proofs.Catalog.Membership
import DocCatalog.Proofs.Export.SameAnswers
import DocCatalog.Proofs.Registry.Abreast
import Mathlib.Logic.Function.Basic

set_option autoImplicit false

namespace DocCatalog

open Catalog

/-! ### References -/

/-- To whom an entity refers: its owners, its members, and whom it mentions. -/
def Entity.Refers (x : Entity) (d : EntityId) : Prop :=
  (∃ a ∈ x.lineage, a.id = d) ∨ (∃ k, x.slots.get? k = some d) ∨ x.Mentions d

namespace Catalog

variable {c c₀ : Catalog} {r r' : Registry} {e d : EntityId}

theorem not_knows_of_le {i : Nat} (h : c.entities.size ≤ i) : ¬ c.Knows ⟨i⟩ := Nat.not_lt.2 h

/-- All owners of an entity are at home where it is. -/
theorem Domestic.owners (h : c.Domestic) {l : List Ancestor} :
    ∀ {e}, c.Knows e → (c.entity e).lineage = l →
      ∀ a ∈ l, c.Knows a.id ∧ (c.entity a.id).home = (c.entity e).home := by
  induction l with
  | nil => simp
  | cons a l ih =>
      intro e hk hl
      have ho : (c.entity e).owner? = some a.id := by simp [Entity.owner?, hl]
      have hlin := h.wellFormed.lineage hk
      rw [hl, ho, lineageOf, List.cons.injEq] at hlin
      have hka := (h.wellFormed.knows_owner hk ho).1
      have hha := h.owner_home hk ho
      intro b hb
      rcases List.mem_cons.1 hb with rfl | hb
      · exact ⟨hka, hha⟩
      · obtain ⟨hkb, hhb⟩ := ih hka hlin.2.symm b hb
        exact ⟨hkb, hhb.trans hha⟩

/-- Who is referred to is known and at home in the registry, if this holds of who is mentioned. -/
theorem Domestic.refers (h : c.Domestic) (hk : c.Knows e) (hd : (c.entity e).Refers d) :
    (c.Knows d ∧ (c.entity d).home = (c.entity e).home) ∨ (c.entity e).Mentions d := by
  rcases hd with ⟨a, ha, rfl⟩ | ⟨k, hm⟩ | hd
  · exact .inl (h.owners hk rfl a ha)
  · have hkd := h.wellFormed.knows_slot hm
    exact .inl ⟨hkd, (h.owner_home hkd (h.slotsHold.owner?_eq hm)).symm⟩
  · exact .inr hd

/-! ### Entities by number -/

/-- The entities of a registry, in the order in which they were made. -/
def natives (c : Catalog) (r : Registry) : List EntityId :=
  ((List.range c.entities.size).map EntityId.mk).filter fun e => (c.entity e).home = r

/-- The entity of a registry that has a number. -/
def native (c : Catalog) (r : Registry) (number : EntityId) : EntityId :=
  ((c.natives r)[number.index]?).getD default

theorem mem_natives : e ∈ c.natives r ↔ c.Knows e ∧ (c.entity e).home = r := by
  simp only [natives, List.mem_filter, List.mem_map, List.mem_range, decide_eq_true_eq, Knows]
  constructor
  · rintro ⟨⟨i, hi, rfl⟩, hh⟩
    exact ⟨hi, hh⟩
  · rintro ⟨hk, hh⟩
    exact ⟨⟨e.index, hk, rfl⟩, hh⟩

/-- What is made within a registry comes after the entities that it has, and to no other. -/
theorem Within.natives_eq (h : Within r c₀ c) (r' : Registry) :
    c.natives r' = c₀.natives r' ++ if r' = r then
      (List.range (c.entities.size - c₀.entities.size)).map fun i => ⟨c₀.entities.size + i⟩
    else [] := by
  have hle : c₀.entities.size ≤ c.entities.size := by
    by_contra hlt
    have hk : c₀.Knows ⟨c.entities.size⟩ := Nat.lt_of_not_le hlt
    exact Nat.lt_irrefl _ (h.later.knows hk)
  obtain ⟨k, hk⟩ := Nat.exists_eq_add_of_le hle
  have hold : ((List.range c₀.entities.size).map EntityId.mk).filter
      (fun e => decide ((c.entity e).home = r')) = c₀.natives r' := by
    refine List.filter_congr fun e he => ?_
    obtain ⟨i, hi, rfl⟩ := List.mem_map.1 he
    rw [h.later.home (List.mem_range.1 hi)]
  have hnew : ∀ e ∈ (List.range k).map fun i => (⟨c₀.entities.size + i⟩ : EntityId),
      (c.entity e).home = r := by
    intro e he
    obtain ⟨i, hi, rfl⟩ := List.mem_map.1 he
    have hi := List.mem_range.1 hi
    refine h.newcomer ?_ ?_
    · rw [Knows, hk]
      exact Nat.add_lt_add_left hi _
    · exact not_knows_of_le (Nat.le_add_right _ _)
  rw [natives, hk, List.range_add, List.map_append, List.filter_append, hold, List.map_map,
    Nat.add_sub_cancel_left]
  congr 1
  split
  · next hr =>
      subst hr
      exact List.filter_eq_self.2 fun e he => decide_eq_true (hnew e he)
  · next hr =>
      refine List.filter_eq_nil_iff.2 fun e he => ?_
      rw [decide_eq_true_eq, hnew e he]
      exact Ne.symm hr

end Catalog

/-! ### Turns -/

/-- What a session of a registry does in its turn.  It names the entities of its registry by number,
in the order in which they were made. -/
inductive Turn where
  | act (op : Operation)
  /-- A change of path begins. -/
  | enter (e : EntityId)
  /-- The innermost change of path of the session ends. -/
  | leave

/-- A catalog that sessions share, and the changes of path that go on in the session of each
registry, the innermost first. -/
structure Shared where
  catalog : Catalog
  blocks : Registry → List Rekeying

/-- A session as it is found by those that go on from it, each with the changes of path in its
registry. -/
def Session.shared (s : Session) : Shared :=
  ⟨s.catalog, fun r => s.blocks.filter fun k => k.registry = r⟩

/-- A turn of a session names no registry but its own and only entities that its registry has, and
owners that are namespaces. -/
def Turn.Allowed (s : Shared) (r : Registry) : Turn → Prop
  | act op => op.opensNone = true ∧ (∀ r' ∈ op.registries, r' = r) ∧
      (∀ d ∈ op.references, d.index < (s.catalog.natives r).length) ∧
      ∀ n ∈ op.owner?, (s.catalog.entity (s.catalog.native r n)).isSpace = true
  | enter e => e.index < (s.catalog.natives r).length
  | leave => (s.blocks r).isEmpty = false

instance (c : Catalog) (r : Registry) : Decidable (c.Opened r) :=
  decidable_of_iff
    (r.index < c.stock.size ∧ c.Knows (c.root r) ∧ (c.entity (c.root r)).home = r)
    ⟨fun h => ⟨h.1, h.2.1, h.2.2⟩, fun h => ⟨h.lt, h.knows_root, h.home_root⟩⟩

instance (s : Shared) (r : Registry) : (turn : Turn) → Decidable (turn.Allowed s r)
  | .act _ => inferInstanceAs (Decidable (_ ∧ _ ∧ _ ∧ _))
  | .enter _ => inferInstanceAs (Decidable (_ < _))
  | .leave => inferInstanceAs (Decidable (_ = _))

namespace Shared

/-- A session takes its turn. -/
def take (s : Shared) (r : Registry) : Turn → Shared
  | .act op => { s with catalog := ((op.rename (s.catalog.native r)).action s.catalog).2 }
  | .enter e =>
      ⟨(s.catalog.openRekey r (s.catalog.native r e)).2,
        Function.update s.blocks r ((s.catalog.openRekey r (s.catalog.native r e)).1 :: s.blocks r)⟩
  | .leave =>
      match s.blocks r with
      | k :: ks => ⟨s.catalog.closeRekey k, Function.update s.blocks r ks⟩
      | [] => s

/-- The sessions take turns, each on its registry. -/
def play (s : Shared) (turns : List (Registry × Turn)) : Shared :=
  turns.foldl (fun s turn => s.take turn.1 turn.2) s

/-- Every turn is one that the session can take when it comes. -/
def Plays : Shared → List (Registry × Turn) → Prop
  | _, [] => True
  | s, (r, turn) :: rest => s.catalog.Opened r ∧ turn.Allowed s r ∧ (s.take r turn).Plays rest

instance decidablePlays : (s : Shared) → (turns : List (Registry × Turn)) →
    Decidable (s.Plays turns)
  | _, [] => .isTrue trivial
  | s, (r, turn) :: rest =>
      have := decidablePlays (s.take r turn) rest
      inferInstanceAs (Decidable (_ ∧ _ ∧ _))

/-- Every entity is at home with its owner, who is mentioned is known, and what will be put back
belongs where it will be put. -/
structure Sound (s : Shared) : Prop where
  domestic : s.catalog.Domestic
  known : ∀ {e d}, (s.catalog.entity e).Mentions d → s.catalog.Knows d
  blocks : ∀ r, ∀ k ∈ s.blocks r, k.registry = r ∧ s.catalog.Knows k.entity ∧
    (k.wasRegistered = true → (s.catalog.entity k.entity).home = k.registry)

variable {s : Shared} {r : Registry} {turn : Turn}

theorem native_of_lt {c : Catalog} {d : EntityId} (hd : d.index < (c.natives r).length) :
    c.Knows (c.native r d) ∧ (c.entity (c.native r d)).home = r := by
  rw [native, List.getElem?_eq_getElem hd, Option.getD_some]
  exact mem_natives.1 (List.getElem_mem hd)

/-- An operation of a session is addressed to its registry. -/
theorem addressedTo {c : Catalog} {op : Operation} (hop : op.opensNone = true)
    (hregs : ∀ r' ∈ op.registries, r' = r) (hrefs : ∀ d ∈ op.references, (c.entity d).home = r) :
    op.AddressedTo r c := by
  have hmake : ∀ {o : Origin}, (∀ r' ∈ o.registry?.toList, r' = r) →
      (∀ d ∈ o.owner?.toList, (c.entity d).home = r) → o.AddressedTo r c := by
    intro o hregs hrefs
    unfold Origin.AddressedTo
    split
    · next n hn => exact hrefs n (by simp [hn])
    · exact fun r' hr' => hregs r' (by simp [hr'])
  cases op with
  | openRegistry config => cases hop
  | loadFresh data => cases hop
  | makeEntry o => exact hmake hregs hrefs
  | makeSpace o => exact hmake hregs hrefs
  | makeMethod o scope => exact hmake hregs hrefs
  | clear r' => exact hregs r' (by simp [Operation.registries])
  | register r' e => exact hregs r' (by simp [Operation.registries])
  | delete r' e => exact hregs r' (by simp [Operation.registries])
  | ensureNamespace r' path => exact hregs r' (by simp [Operation.registries])
  | load r' data => exact hregs r' (by simp [Operation.registries])
  | dismiss n e => exact hrefs n (by simp [Operation.references])
  | addAttribute n scope name read write => exact hrefs n (by simp [Operation.references])
  | dropAttributes n s => exact hrefs n (by simp [Operation.references])
  | addAlias n e? name => exact hrefs n (by simp [Operation.references])
  | setScope e scope => exact hrefs e (by simp [Operation.references])
  | setVisibility e visibility => exact hrefs e (by simp [Operation.references])
  | setParameters e parameters => exact hrefs e (by simp [Operation.references])
  | setExplicit e explicit => exact hrefs e (by simp [Operation.references])
  | setDocstring e docstring => exact hrefs e (by simp [Operation.references])
  | addFile e file line => exact hrefs e (by simp [Operation.references])

/-- What an operation of a session names was given out. -/
theorem granted {c : Catalog} {op : Operation} (hr : c.Opened r)
    (hregs : ∀ r' ∈ op.registries, r' = r) (hrefs : ∀ d ∈ op.references, c.Knows d)
    (hspace : ∀ n ∈ op.owner?, (c.entity n).isSpace = true) : op.Granted c := by
  have hmake : ∀ {o : Origin}, (∀ r' ∈ o.registry?.toList, r' = r) →
      (∀ d ∈ o.owner?.toList, c.Knows d) → (∀ n ∈ o.owner?, (c.entity n).isSpace = true) →
      o.Known c := fun hregs hrefs hspace =>
    ⟨fun n hn => ⟨hrefs n (by simp [hn]), hspace n hn⟩,
      fun r' hr' => hregs r' (by simp [hr']) ▸ hr⟩
  cases op with
  | makeEntry o => exact hmake hregs hrefs hspace
  | makeSpace o => exact hmake hregs hrefs hspace
  | makeMethod o scope => exact hmake hregs hrefs hspace
  | clear r' => exact hregs r' (by simp [Operation.registries]) ▸ hr
  | register r' e =>
      exact ⟨hregs r' (by simp [Operation.registries]) ▸ hr,
        hrefs e (by simp [Operation.references])⟩
  | delete r' e =>
      exact ⟨hregs r' (by simp [Operation.registries]) ▸ hr,
        hrefs e (by simp [Operation.references])⟩
  | setScope e scope => exact hrefs e (by simp [Operation.references])
  | ensureNamespace r' path => exact hregs r' (by simp [Operation.registries]) ▸ hr
  | load r' data => exact hregs r' (by simp [Operation.registries]) ▸ hr
  | _ => trivial

/-- **A turn stays within the registry of its session.** -/
theorem Sound.within (h : s.Sound) (hr : s.catalog.Opened r) (ht : turn.Allowed s r) :
    Within r s.catalog (s.take r turn).catalog := by
  have hstart := h.domestic.within hr
  cases turn with
  | act op =>
      obtain ⟨hop, hregs, hrefs, hspace⟩ := ht
      have hregs' : ∀ r' ∈ (op.rename (s.catalog.native r)).registries, r' = r := by
        rwa [Operation.registries_rename]
      have hrefs' : ∀ d ∈ (op.rename (s.catalog.native r)).references,
          s.catalog.Knows d ∧ (s.catalog.entity d).home = r := by
        intro d hd
        rw [Operation.references_rename] at hd
        obtain ⟨number, hnumber, rfl⟩ := List.mem_map.1 hd
        exact native_of_lt (hrefs number hnumber)
      have hspace' : ∀ n ∈ (op.rename (s.catalog.native r)).owner?,
          (s.catalog.entity n).isSpace = true := by
        intro n hn
        rw [Operation.owner?_rename] at hn
        obtain ⟨number, hnumber, rfl⟩ := Option.map_eq_some_iff.1 hn
        exact hspace number hnumber
      have hknown := fun d hd => (hrefs' d hd).1
      exact (Operation.within hstart (granted hr hregs' hknown hspace')
        (addressedTo (by rwa [Operation.opensNone_rename]) hregs' fun d hd => (hrefs' d hd).2)
        hknown hregs').run
  | enter e => exact hstart.openRekey _
  | leave =>
      show Within r s.catalog (Shared.catalog (match s.blocks r with
        | k :: ks => ⟨s.catalog.closeRekey k, Function.update s.blocks r ks⟩
        | [] => s))
      split
      · next k ks hks =>
          obtain ⟨hreg, hk, hh⟩ := h.blocks r k (by simp [hks])
          exact hstart.closeRekey hreg hk hh
      · exact hstart

theorem Sound.take (h : s.Sound) (hr : s.catalog.Opened r) (ht : turn.Allowed s r) :
    (s.take r turn).Sound := by
  have hw := h.within hr ht
  refine ⟨hw.domestic, fun hd => ?_, ?_⟩
  · rcases hw.mentions hd with ⟨e', hd⟩ | hk
    · exact hw.later.knows (h.known hd)
    · exact hk
  -- what goes on was begun before, or it begins now
  have hlater : ∀ r', ∀ k ∈ s.blocks r', k.registry = r' ∧ (s.take r turn).catalog.Knows k.entity ∧
      (k.wasRegistered = true → ((s.take r turn).catalog.entity k.entity).home = k.registry) := by
    intro r' k hk
    obtain ⟨hreg, hke, hh⟩ := h.blocks r' k hk
    exact ⟨hreg, hw.later.knows hke, fun hwas => (hw.later.home hke).trans (hh hwas)⟩
  intro r' k hk
  cases turn with
  | act op => exact hlater r' k hk
  | enter e =>
      obtain ⟨hke, hhe⟩ := native_of_lt ht
      by_cases hrr : r' = r
      · subst hrr
        simp only [Shared.take, Function.update_self, List.mem_cons] at hk
        rcases hk with rfl | hk
        · exact ⟨rfl, hw.later.knows hke, fun _ => (hw.later.home hke).trans hhe⟩
        · exact hlater r' k hk
      · refine hlater r' k ?_
        simpa only [Shared.take, Function.update_of_ne hrr] using hk
  | leave =>
      refine hlater r' k ?_
      simp only [Shared.take] at hk
      split at hk
      · next k₁ ks hks =>
          by_cases hrr : r' = r
          · subst hrr
            simp only [Function.update_self] at hk
            simp [hks, hk]
          · simpa only [Function.update_of_ne hrr] using hk
      · exact hk

end Shared

/-! ### Other correspondences of the same entities -/

/-- What corresponds goes on to correspond if this holds of what the list on the left holds. -/
theorem forall₂_imp_of_mem {α β : Type} {R S : α → β → Prop} {l : List α} {l' : List β}
    (h : List.Forall₂ R l l') (himp : ∀ a ∈ l, ∀ b, R a b → S a b) : List.Forall₂ S l l' := by
  induction h with
  | nil => exact .nil
  | cons hab _ ih =>
      exact .cons (himp _ (by simp) _ hab) (ih fun a ha => himp a (by simp [ha]))

theorem rel_imp_of_mem {α β : Type} {R S : α → β → Prop} {x : Option α} {y : Option β}
    (h : Option.Rel R x y) (himp : ∀ a, x = some a → ∀ b, R a b → S a b) : Option.Rel S x y := by
  cases h with
  | none => exact .none
  | some hab => exact .some (himp _ rfl _ hab)

namespace Pairing

variable {ρ σ : Pairing} {x x' : Entity}

/-- Only the references of an entity matter to what it corresponds to. -/
theorem Entities.mono (h : ρ.Entities x x')
    (hrefs : ∀ d, x.Refers d → ∀ d', ρ.twins d d' → σ.twins d d') : σ.Entities x x' where
  name := h.name
  config := h.config
  lineage := forall₂_imp_of_mem h.lineage fun a ha a' haa =>
    ⟨hrefs _ (.inl ⟨a, ha, rfl⟩) _ haa.id, haa.name, haa.isRoot, haa.config⟩
  profile := h.profile
  tables := by
    refine rel_imp_of_mem h.tables fun t ht t' htt => ⟨⟨fun s => ?_, ?_⟩, ?_⟩
    · refine rel_imp_of_mem (htt.attributes s) fun a ha a' haa =>
        forall₂_imp_of_mem haa fun p hp p' hpp => ⟨hpp.1, hpp.2.1, ?_, ?_⟩
      · exact rel_imp_of_mem hpp.2.2.read fun d hd =>
          hrefs d (.inr (.inr ⟨t, ht, .inl ⟨s, a, ha, p, hp, .inl hd⟩⟩))
      · exact rel_imp_of_mem hpp.2.2.write fun d hd =>
          hrefs d (.inr (.inr ⟨t, ht, .inl ⟨s, a, ha, p, hp, .inr hd⟩⟩))
    · refine forall₂_imp_of_mem htt.aliases fun p hp p' hpp => ⟨?_, hpp.2⟩
      exact rel_imp_of_mem hpp.1 fun d hd => hrefs d (.inr (.inr ⟨t, ht, .inr ⟨p, hp, hd⟩⟩))
    · refine forall₂_imp_of_mem htt.members fun p hp p' hpp =>
        ⟨hpp.1, hrefs _ (.inr (.inl ⟨p.1, ?_⟩)) _ hpp.2⟩
      have hslots : x.slots = t.members := by rw [Entity.slots, ht]; rfl
      rw [hslots]
      exact (OrderedTable.get?_eq_some_iff _ _ _).2 hp

/-- An entity corresponds to itself if all that it refers to does. -/
theorem Entities.refl (hrefs : ∀ d, x.Refers d → σ.twins d d) : σ.Entities x x := by
  -- by the correspondence of every entity to itself
  have heq : (Pairing.mk σ.left σ.right σ.config_eq Eq biUnique_eq).Entities x x := by
    refine ⟨rfl, rfl, List.forall₂_same.2 fun a _ => ⟨rfl, rfl, rfl, rfl⟩, rfl, ?_⟩
    have hoption : ∀ o : Option EntityId, Option.Rel Eq o o := fun o => by
      cases o <;> constructor; rfl
    cases x.tables? with
    | none => exact .none
    | some t =>
        refine .some ⟨⟨fun s => ?_, List.forall₂_same.2 fun _ _ => ⟨hoption _, rfl⟩⟩,
          List.forall₂_same.2 fun _ _ => ⟨rfl, rfl⟩⟩
        cases t.attributes? s with
        | none => exact .none
        | some a =>
            exact .some (List.forall₂_same.2 fun _ _ => ⟨rfl, rfl, hoption _, hoption _⟩)
  exact heq.mono fun d hd d' hdd => hdd ▸ hrefs d hd

variable {c c' d : Catalog} {r : Registry}

/-! ### At the beginning -/

/-- A registry beside itself: its entities correspond to themselves, and so does what will be
made. -/
def atHome (c : Catalog) {r r' : Registry} (same : r = r') : Pairing where
  left := r
  right := r'
  config_eq := congrArg Registry.config same
  twins e e' := e = e' ∧ (c.Knows e → (c.entity e).home = r)
  biUnique := ⟨fun _ _ _ h h' => h.1.trans h'.1.symm, fun _ _ _ h h' => h.1.symm.trans h'.1⟩

theorem mirrors_atHome (h : c.Domestic) (hr : c.Opened r)
    (hm : ∀ {e d}, (c.entity e).Mentions d → c.Knows d ∧ (c.entity d).home = (c.entity e).home) :
    (atHome c (Eq.refl r)).Mirrors c c where
  lt := hr.lt
  lt' := hr.lt
  knows := by rintro e _ ⟨rfl, -⟩; exact Iff.rfl
  next i := ⟨rfl, fun hk => (not_knows_of_le (Nat.le_add_right _ i) hk).elim⟩
  entity := by
    rintro e _ ⟨rfl, hh⟩
    by_cases hk : c.Knows e
    · refine .refl fun d hd => ⟨rfl, fun _ => ?_⟩
      have hhome : (c.entity d).home = (c.entity e).home :=
        (h.refers hk hd).elim (fun hd => hd.2) fun hd => (hm hd).2
      exact hhome.trans (hh hk)
    · rw [entity_of_not_knows hk]
      exact .default
  home := by
    rintro e _ ⟨rfl, hh⟩ hk
    exact ⟨hh hk, hh hk⟩
  entries := List.forall₂_same.2 fun p hp => ⟨rfl, rfl, fun _ =>
    h.keysHold.home h.wellFormed hr ((OrderedTable.get?_eq_some_iff _ _ _).2 hp)⟩
  root := ⟨rfl, fun _ => hr.home_root⟩
  knows_root := hr.knows_root

/-! ### After others -/

/-- The correspondence after others have made entities on the left: what corresponds is what is
known and corresponded, and what will be made on both sides from now on. -/
def shift (ρ : Pairing) (h : ρ.Mirrors c d) (hle : c.entities.size ≤ c'.entities.size) :
    Pairing where
  left := ρ.left
  right := ρ.right
  config_eq := ρ.config_eq
  twins e e' := (ρ.twins e e' ∧ c.Knows e) ∨
    ∃ i, e = ⟨c'.entities.size + i⟩ ∧ e' = ⟨d.entities.size + i⟩
  biUnique := by
    -- what is known is none of what will be made, on either side
    have hnew : ∀ {e e'} i, ρ.twins e e' ∧ c.Knows e → e ≠ ⟨c'.entities.size + i⟩ ∧
        e' ≠ ⟨d.entities.size + i⟩ := by
      rintro e e' i ⟨he, hk⟩
      constructor
      · rintro rfl
        exact not_knows_of_le (Nat.le_trans hle (Nat.le_add_right _ i)) hk
      · rintro rfl
        exact not_knows_of_le (Nat.le_add_right _ i) ((h.knows he).1 hk)
    constructor
    · rintro e₁ e' e₂ (h₁ | ⟨i, rfl, rfl⟩) (h₂ | ⟨j, rfl, he'⟩)
      · exact ρ.biUnique.1 h₁.1 h₂.1
      · exact ((hnew j h₁).2 he').elim
      · exact ((hnew i h₂).2 rfl).elim
      · rw [Nat.add_left_cancel (EntityId.mk.inj he')]
    · rintro e e₁ e₂ (h₁ | ⟨i, rfl, rfl⟩) (h₂ | ⟨j, he, rfl⟩)
      · exact ρ.biUnique.2 h₁.1 h₂.1
      · exact ((hnew j h₁).1 he).elim
      · exact ((hnew i h₂).1 rfl).elim
      · rw [Nat.add_left_cancel (EntityId.mk.inj he)]

theorem Mirrors.shift (h : ρ.Mirrors c d) (hc : c.Domestic)
    (hm : ∀ {e d}, (c.entity e).Mentions d → c.Knows d) (hw : Within r c c')
    (hi : ρ.left.index ≠ r.index) (hle : c.entities.size ≤ c'.entities.size) :
    (ρ.shift h hle).Mirrors c' d where
  lt := by
    obtain ⟨hk, hh⟩ := h.home h.root h.knows_root
    exact (hw.later.opened ⟨h.lt, h.knows_root, hk⟩).lt
  lt' := h.lt'
  knows := by
    rintro e e' (⟨he, hk⟩ | ⟨i, rfl, rfl⟩)
    · exact iff_of_true (hw.later.knows hk) ((h.knows he).1 hk)
    · exact iff_of_false (not_knows_of_le (Nat.le_add_right _ i))
        (not_knows_of_le (Nat.le_add_right _ i))
  next i := .inr ⟨i, rfl, rfl⟩
  entity := by
    rintro e e' (⟨he, hk⟩ | ⟨i, rfl, rfl⟩)
    · rw [hw.entity hk fun hh => hi (by rw [← (h.home he hk).1, hh])]
      refine (h.entity he).mono fun b hb b' hbb => .inl ⟨hbb, ?_⟩
      exact (hc.refers hk hb).elim (fun hb => hb.1) hm
    · rw [entity_of_not_knows (not_knows_of_le (Nat.le_add_right _ i)),
        entity_of_not_knows (not_knows_of_le (Nat.le_add_right _ i))]
      exact .default
  home := by
    rintro e e' (⟨he, hk⟩ | ⟨i, rfl, rfl⟩) hk'
    · obtain ⟨hh, hh'⟩ := h.home he hk
      exact ⟨(hw.later.home hk).trans hh, hh'⟩
    · exact (not_knows_of_le (Nat.le_add_right _ i) hk').elim
  entries := by
    have hentries : c'.entries (ρ.shift h hle).left = c.entries ρ.left := hw.entries hi
    rw [hentries]
    exact forall₂_imp_of_mem h.entries fun p hp p' hpp => ⟨hpp.1, .inl ⟨hpp.2,
      hc.wellFormed.knows_entry ((OrderedTable.get?_eq_some_iff _ _ _).2 hp)⟩⟩
  root := by
    have hroot : c'.root (ρ.shift h hle).left = c.root ρ.left := hw.root hi
    rw [hroot]
    exact .inl ⟨h.root, h.knows_root⟩
  knows_root := by
    have hroot : c'.root (ρ.shift h hle).left = c.root ρ.left := hw.root hi
    rw [hroot]
    exact hw.later.knows h.knows_root

/-! ### Abreast -/

/-- Two runs of which the registries hold the same, in which the sessions give the entities the same
numbers, and in which the same changes of path go on. -/
structure Abreast (ρ : Pairing) (s t : Shared) : Prop where
  same : ρ.left = ρ.right
  mirrors : ρ.Mirrors s.catalog t.catalog
  natives : List.Forall₂ ρ.twins (s.catalog.natives ρ.left) (t.catalog.natives ρ.left)
  blocks : List.Forall₂ (ρ.Rekeyings s.catalog) (s.blocks ρ.left) (t.blocks ρ.left)

theorem Rekeyings.mono {k k' : Rekeying} (h : ρ.Rekeyings c k k')
    (hle : c.entities.size ≤ c'.entities.size) : ρ.Rekeyings c' k k' :=
  ⟨h.registry, h.registry', h.oldPath, h.wasRegistered, fun hwas => (h.entity hwas).mono hle⟩

namespace Abreast

variable {s t : Shared} {turn : Turn}

theorem opened (h : Abreast ρ s t) : s.catalog.Opened ρ.left ∧ t.catalog.Opened ρ.left := by
  have hm := h.mirrors
  obtain ⟨hl, hr⟩ := hm.home hm.root hm.knows_root
  refine ⟨⟨hm.lt, hm.knows_root, hl⟩, ?_⟩
  rw [h.same]
  exact ⟨hm.lt', (hm.knows hm.root).1 hm.knows_root, hr⟩

/-- One number stands for twins. -/
theorem native (h : Abreast ρ s t) {number : EntityId}
    (hn : number.index < (s.catalog.natives ρ.left).length) :
    ρ.Known (s.catalog.native ρ.left number) (t.catalog.native ρ.left number) s.catalog := by
  have hn' : number.index < (t.catalog.natives ρ.left).length := h.natives.length_eq ▸ hn
  refine ⟨?_, (Shared.native_of_lt hn).1⟩
  rw [Catalog.native, Catalog.native, List.getElem?_eq_getElem hn, List.getElem?_eq_getElem hn']
  exact h.natives.get hn hn'

/-- A turn that can be taken in the one run can be taken in the other. -/
theorem allowed (h : Abreast ρ s t) (hturn : turn.Allowed s ρ.left) : turn.Allowed t ρ.left := by
  have hlength := h.natives.length_eq
  cases turn with
  | act op =>
      obtain ⟨hop, hregs, hrefs, hspace⟩ := hturn
      refine ⟨hop, hregs, fun d hd => hlength ▸ hrefs d hd, fun n hn => ?_⟩
      have htwins := (h.native (hrefs n (Operation.mem_references_of_owner? hn))).1
      rw [← (h.mirrors.entity htwins).isSpace_eq]
      exact hspace n hn
  | enter e => exact Nat.lt_of_lt_of_eq hturn hlength
  | leave =>
      have hempty : ∀ {l l' : List Rekeying}, List.Forall₂ (ρ.Rekeyings s.catalog) l l' →
          l.isEmpty = l'.isEmpty := fun hl => by cases hl <;> rfl
      exact (hempty h.blocks).symm.trans hturn

/-- What a turn makes in the registry of its session is given the next numbers on both sides. -/
theorem natives_of_within (h : Abreast ρ s t) {s' t' : Shared}
    (hm : ρ.Mirrors s'.catalog t'.catalog) (hw : Within ρ.left s.catalog s'.catalog)
    (hw' : Within ρ.left t.catalog t'.catalog) :
    List.Forall₂ ρ.twins (s'.catalog.natives ρ.left) (t'.catalog.natives ρ.left) := by
  -- as many are made on the one side as on the other
  have hiff : ∀ i, s.catalog.entities.size + i < s'.catalog.entities.size ↔
      t.catalog.entities.size + i < t'.catalog.entities.size :=
    fun i => hm.knows (h.mirrors.next i)
  have hsize : s'.catalog.entities.size - s.catalog.entities.size =
      t'.catalog.entities.size - t.catalog.entities.size := by
    have h₁ := hiff (s'.catalog.entities.size - s.catalog.entities.size)
    have h₂ := hiff (t'.catalog.entities.size - t.catalog.entities.size)
    omega
  rw [hw.natives_eq, hw'.natives_eq, if_pos rfl, if_pos rfl, hsize]
  refine List.rel_append h.natives ?_
  rw [List.forall₂_map_left_iff, List.forall₂_map_right_iff]
  exact List.forall₂_same.2 fun i _ => h.mirrors.next i

/-- **A turn of the session itself keeps the two runs abreast.** -/
theorem own (h : Abreast ρ s t) (hs : s.Sound) (ht : t.Sound) (hturn : turn.Allowed s ρ.left) :
    Abreast ρ (s.take ρ.left turn) (t.take ρ.left turn) := by
  have hw := hs.within h.opened.1 hturn
  have hw' := ht.within h.opened.2 (h.allowed hturn)
  cases turn with
  | act op =>
      obtain ⟨hop, hregs, hrefs, -⟩ := hturn
      have hstep := h.mirrors.operation h.same hop (fun d hd => h.native (hrefs d hd)) hregs
      exact ⟨h.same, hstep.mirrors, h.natives_of_within hstep.mirrors hw hw',
        h.blocks.imp fun k k' hk => hk.mono hstep.size_le⟩
  | enter e =>
      have he := h.native hturn
      have hm := h.mirrors.openRekey he.1
      have hk := h.mirrors.rekeyings he
      rw [← h.same] at hm hk
      have hle : s.catalog.entities.size ≤
          (s.catalog.openRekey ρ.left (s.catalog.native ρ.left e)).2.entities.size :=
        Nat.le_of_eq (s.catalog.size_openRekey _ _).symm
      refine ⟨h.same, hm, h.natives_of_within hm hw hw', ?_⟩
      simp only [Shared.take, Function.update_self]
      exact .cons (hk.mono hle) (h.blocks.imp fun k k' hk => hk.mono hle)
  | leave =>
      have hblocks := h.blocks
      rcases hb : s.blocks ρ.left with _ | ⟨k, ks⟩
      · simp [Turn.Allowed, hb] at hturn
      rcases hb' : t.blocks ρ.left with _ | ⟨k', ks'⟩ <;> rw [hb, hb'] at hblocks <;> cases hblocks
      next hk hks =>
        have hm := h.mirrors.closeRekey hk
        have htake : s.take ρ.left .leave =
            ⟨s.catalog.closeRekey k, Function.update s.blocks ρ.left ks⟩ := by
          simp only [Shared.take, hb]
        have htake' : t.take ρ.left .leave =
            ⟨t.catalog.closeRekey k', Function.update t.blocks ρ.left ks'⟩ := by
          simp only [Shared.take, hb']
        rw [htake] at hw ⊢
        rw [htake'] at hw' ⊢
        refine ⟨h.same, hm, h.natives_of_within hm hw hw', ?_⟩
        simp only [Function.update_self]
        exact hks.imp fun k k' hk => hk.mono (Nat.le_of_eq (size_closeRekey _ _).symm)

/-- **A turn of another session keeps the joint run abreast of the run alone**, up to a shift of the
references that are still to come. -/
theorem foreign (h : Abreast ρ s t) (hs : s.Sound) (hr : s.catalog.Opened r) (hne : r ≠ ρ.left)
    (hturn : turn.Allowed s r) :
    ∃ σ : Pairing, σ.left = ρ.left ∧ Abreast σ (s.take r turn) t := by
  have hw := hs.within hr hturn
  have hi : ρ.left.index ≠ r.index := fun hi => hne (hr.eq_of_index h.opened.1 hi.symm)
  have hle : s.catalog.entities.size ≤ (s.take r turn).catalog.entities.size := by
    by_contra hlt
    exact Nat.lt_irrefl _ (hw.later.knows (e := ⟨(s.take r turn).catalog.entities.size⟩)
      (Nat.lt_of_not_le hlt))
  have hshift : ∀ {e e'}, ρ.Known e e' s.catalog → (ρ.shift h.mirrors hle).twins e e' := .inl
  refine ⟨ρ.shift h.mirrors hle, rfl, h.same,
    h.mirrors.shift hs.domestic hs.known hw hi hle, ?_, ?_⟩
  · have hnatives := hw.natives_eq ρ.left
    rw [if_neg (Ne.symm hne), List.append_nil] at hnatives
    show List.Forall₂ _ ((s.take r turn).catalog.natives ρ.left) (t.catalog.natives ρ.left)
    rw [hnatives]
    exact forall₂_imp_of_mem h.natives fun e he e' hee => hshift ⟨hee, (mem_natives.1 he).1⟩
  · have hblocks : (s.take r turn).blocks ρ.left = s.blocks ρ.left := by
      cases turn with
      | act op => rfl
      | enter e => exact Function.update_of_ne (Ne.symm hne) _ _
      | leave =>
          simp only [Shared.take]
          split
          · exact Function.update_of_ne (Ne.symm hne) _ _
          · rfl
    show List.Forall₂ _ ((s.take r turn).blocks ρ.left) (t.blocks ρ.left)
    rw [hblocks]
    refine h.blocks.imp fun k k' hk => ⟨hk.registry, hk.registry', hk.oldPath, hk.wasRegistered,
      fun hwas => ?_⟩
    have hknown := hk.entity hwas
    exact ⟨hshift hknown, hw.later.knows hknown.2⟩

/-- **The joint run and the run alone stay abreast**, and what can be played jointly can be played
alone. -/
theorem play (h : Abreast ρ s t) (hs : s.Sound) (ht : t.Sound) {turns : List (Registry × Turn)}
    (hplays : s.Plays turns) :
    t.Plays (turns.filter fun turn => turn.1 = ρ.left) ∧
      ∃ σ : Pairing, σ.left = ρ.left ∧
        Abreast σ (s.play turns) (t.play (turns.filter fun turn => turn.1 = ρ.left)) := by
  induction turns generalizing ρ s t with
  | nil => exact ⟨trivial, ρ, rfl, h⟩
  | cons turn rest ih =>
      obtain ⟨r, turn⟩ := turn
      obtain ⟨hr, hturn, hrest⟩ := hplays
      have hs' := hs.take hr hturn
      by_cases hown : r = ρ.left
      · subst hown
        rw [List.filter_cons_of_pos (by simp)]
        have hturn' := h.allowed hturn
        obtain ⟨hplays, hgoes⟩ := ih (h.own hs ht hturn) hs' (ht.take h.opened.2 hturn') hrest
        exact ⟨⟨h.opened.2, hturn', hplays⟩, hgoes⟩
      · rw [List.filter_cons_of_neg (by simpa using hown)]
        obtain ⟨σ, hσ, h'⟩ := h.foreign hs hr hown hturn
        obtain ⟨hplays, τ, hτ, hgoes⟩ := ih h' hs' ht hrest
        rw [hσ] at hplays hgoes hτ
        exact ⟨hplays, τ, hτ, hgoes⟩

end Abreast

end Pairing

/-! ### Sessions -/

namespace Session

variable {s : Session}

theorem Reachable.domestic (h : s.Reachable)
    (hhome : ∀ e n, s.catalog.Knows e → (s.catalog.entity e).owner? = some n →
      (s.catalog.entity n).home = (s.catalog.entity e).home) : s.catalog.Domestic :=
  ⟨(Reachable.sound h).wellFormed, (Reachable.sound h).keysHold, Reachable.slotsHold h,
    fun {e n} => hhome e n⟩

/-- **Registries are isolated.**  In every session that can be come to in which every entity is at
home with its owner: an operation that is addressed to a registry or to an entity at home there, and
either end of a change of path in it, touches no other registry; of an entity of another registry a
registry takes none in, gives none away and changes no path.  And where in addition namespaces
mention only entities of their own registry, each of any number of sessions that go on from there in
any interleaving, each naming only entities of its own registry, leaves its registry as if it had
gone on alone. -/
theorem registries_isolated (h : s.Reachable)
    (hhome : ∀ e n, s.catalog.Knows e → (s.catalog.entity e).owner? = some n →
      (s.catalog.entity n).home = (s.catalog.entity e).home) :
    (∀ r₁ r₂, s.catalog.Opened r₁ → s.catalog.Opened r₂ → r₁ ≠ r₂ →
      (∀ op : Operation, op.Granted s.catalog → op.AddressedTo r₂ s.catalog →
        (∀ d ∈ op.references, s.catalog.Knows d) →
        Untouched r₁ s.catalog (op.action s.catalog).2) ∧
      (∀ e, Untouched r₁ s.catalog (s.catalog.openRekey r₂ e).2) ∧
      (∀ k ∈ s.blocks, k.registry = r₂ → Untouched r₁ s.catalog (s.catalog.closeRekey k)) ∧
      ∀ e, (s.catalog.entity e).home = r₁ →
        (∃ fault, register r₂ e s.catalog = (.error fault, s.catalog) ∧
          fault.word = "ValueError") ∧
        s.catalog.delete r₂ e = s.catalog ∧
        rekey r₂ e (pure ()) s.catalog = (.ok (), s.catalog)) ∧
    ((∀ e d, (s.catalog.entity e).Mentions d →
        s.catalog.Knows d ∧ (s.catalog.entity d).home = (s.catalog.entity e).home) →
      ∀ turns, s.shared.Plays turns → ∀ r, s.catalog.Opened r →
        let own := turns.filter fun turn => turn.1 = r
        let joint := (s.shared.play turns).catalog
        let alone := (s.shared.play own).catalog
        s.shared.Plays own ∧ joint.paths r = alone.paths r ∧
          ∀ filters, joint.listing r filters = alone.listing r filters) := by
  have hd := Reachable.domestic h hhome
  refine ⟨fun r₁ r₂ hr₁ hr₂ hne => ?_, fun hmentions turns hplays r hr => ?_⟩
  · have hi : r₁.index ≠ r₂.index := fun hi => hne (hr₁.eq_of_index hr₂ hi)
    have hstart := hd.within hr₂
    refine ⟨fun op hg ha hk => op.untouched hd hr₂ hi hg ha hk, fun e => ?_, fun k hk hreg => ?_,
      fun e hh => ?_⟩
    · exact (hstart.openRekey e).untouched hi
    · obtain ⟨hke, hkh⟩ := (Reachable.sound h).blocks k hk
      exact (hstart.closeRekey hreg hke hkh).untouched hi
    · obtain ⟨hregister, hdelete, hrekey⟩ := hd.foreign hr₂ (by rwa [hh])
      exact ⟨⟨_, hregister, rfl⟩, hdelete, hrekey⟩
  · have hblocks : ∀ r', ∀ k ∈ s.shared.blocks r', k.registry = r' ∧ s.catalog.Knows k.entity ∧
        (k.wasRegistered = true → (s.catalog.entity k.entity).home = k.registry) := by
      intro r' k hk
      obtain ⟨hk, hreg⟩ := List.mem_filter.1 hk
      obtain ⟨hke, hkh⟩ := (Reachable.sound h).blocks k hk
      exact ⟨of_decide_eq_true hreg, hke, hkh⟩
    have hsound : s.shared.Sound := ⟨hd, fun hm => (hmentions _ _ hm).1, hblocks⟩
    -- to begin with, the two runs are one
    have hbegin : Pairing.Abreast (.atHome s.catalog (Eq.refl r)) s.shared s.shared := by
      refine ⟨rfl, Pairing.mirrors_atHome hd hr (hmentions _ _), ?_, ?_⟩
      · exact List.forall₂_same.2 fun e he => ⟨rfl, fun _ => (mem_natives.1 he).2⟩
      · refine List.forall₂_same.2 fun k hk => ?_
        obtain ⟨hreg, hke, hkh⟩ := hblocks r k hk
        exact ⟨hreg, hreg, rfl, rfl, fun hwas => ⟨⟨rfl, fun _ => (hkh hwas).trans hreg⟩, hke⟩⟩
    obtain ⟨hown, σ, hσ, hend⟩ := hbegin.play hsound hsound hplays
    have hleft : σ.left = r := hσ
    have hright : σ.right = r := hend.same.symm.trans hleft
    have hanswers := hend.mirrors.sameAnswers
    have hpaths := hanswers.paths
    have hlisting := hanswers.listing
    rw [hleft, hright] at hpaths
    rw [hleft, hright] at hlisting
    exact ⟨hown, hpaths, hlisting⟩

/-- Two shops of one shape, one of which changes the scope of its method inside a change of path
while the other is loaded and loses its method.  The numbers of the sessions stand for other
references than they would alone, and both registries end alike. -/
theorem registries_isolated_shops :
    let r₀ : Registry := ⟨0, {}⟩
    let r₁ : Registry := ⟨1, {}⟩
    let data : Value := .dict [("methods", .list [.dict
      [("namespace", .text "Shop"), ("name", .text "total")]])]
    let s : Session := ⟨((({} : Catalog).openRegistry {}).2.openRegistry {}).2, []⟩
    let turns : List (Registry × Turn) := [(r₀, .act (.load r₀ data)), (r₀, .enter ⟨2⟩),
      (r₁, .act (.load r₁ data)), (r₀, .act (.setScope ⟨2⟩ (.text "class"))),
      (r₁, .act (.delete r₁ ⟨2⟩)), (r₀, .leave)]
    let joint := (s.shared.play turns).catalog
    let alone := (s.shared.play (turns.filter fun turn => turn.1 = r₁)).catalog
    s.Reachable ∧ s.shared.Plays turns ∧ joint.natives r₁ = [⟨1⟩, ⟨4⟩, ⟨5⟩] ∧
      alone.natives r₁ = [⟨1⟩, ⟨2⟩, ⟨3⟩] ∧ joint.paths r₀ = ["Shop", "Shop.total"] ∧
      joint.paths r₁ = ["Shop"] ∧ joint.paths r₁ = alone.paths r₁ ∧
      joint.listing r₁ [] = alone.listing r₁ [] ∧ s.catalog.delete r₁ ⟨0⟩ = s.catalog := by
  intro r₀ r₁ data s turns joint alone
  have h : s.Reachable :=
    .tail (.single (.act (.openRegistry {}) trivial)) (.act (.openRegistry {}) trivial)
  have hroots : ∀ e, (s.catalog.entity e).owner? = none ∧
      ∀ d, ¬ (s.catalog.entity e).Mentions d := by
    have hempty : ∀ x : Entity, x.tables? = some {} ∨ x.tables? = none → ∀ d, ¬ x.Mentions d := by
      rintro x (hx | hx) d ⟨t, ht, hd⟩
      · exact Tables.not_mentions_empty (Option.some.inj (hx.symm.trans ht) ▸ hd)
      · cases hx.symm.trans ht
    rintro ⟨_ | _ | i⟩
    · exact ⟨rfl, hempty _ (.inl rfl)⟩
    · exact ⟨rfl, hempty _ (.inl rfl)⟩
    · have hsize : s.catalog.entities.size = 2 := rfl
      rw [entity_of_not_knows (not_knows_of_le (hsize ▸ Nat.le_add_left 2 i))]
      exact ⟨rfl, hempty _ (.inr rfl)⟩
  have ho₀ : s.catalog.Opened r₀ := by decide +kernel
  have ho₁ : s.catalog.Opened r₁ := by decide +kernel
  obtain ⟨hfrozen, hgoes⟩ := registries_isolated h fun e n _ ho => by
    rw [(hroots e).1] at ho
    cases ho
  have hplays : s.shared.Plays turns := by decide +kernel
  obtain ⟨-, hpaths, hlisting⟩ :=
    hgoes (fun e d hd => ((hroots e).2 d hd).elim) turns hplays r₁ ho₁
  obtain ⟨-, -, -, hforeign⟩ := hfrozen r₀ r₁ ho₀ ho₁ (by decide)
  exact ⟨h, hplays, by decide +kernel, by decide +kernel, by decide +kernel, by decide +kernel,
    hpaths, hlisting [], (hforeign ⟨0⟩ (by decide +kernel)).2.1⟩

end Session

end DocCatalog
