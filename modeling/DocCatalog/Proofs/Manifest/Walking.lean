/-
**What loading touches.**

Loading comes to the root, to members of the namespaces that it came to, and to what it made below
them.  It touches nothing but what it came to: it registers it, describes it or writes something
down there, and what is written down mentions only what the registry holds.  So a property that is
to hold all through the loading is a matter of these few steps, each taken at an entity that was
come to.  This is finer than to say that one entity at a time is touched, whichever it is: it tells
what loading leaves alone.

Main definitions:

* `Tables.Mentions`, `Entity.Mentions`: who is named in the tables of a namespace;
* `Form.IsNew`: what a new entity may be;
* `Catalog.Touch`, `Catalog.Describes`: a change of one entity, and one that an entry makes;
* `Manifest.Walk`: what the steps of loading keep, each at an entity that was come to.

Main results:

* `Catalog.ends_addAttribute`: an attribute is written down by two touches of its namespace;
* `Manifest.Walk.ends_ensureNamespace`, `Manifest.Walk.ends_load`: **what the steps keep is kept by
  making namespaces and by loading manifests, wherever they stop**.
-/

import DocCatalog.Proofs.Catalog.Ending
import DocCatalog.Proofs.Manifest.Acceptance
import DocCatalog.Proofs.Registry.Reseating

set_option autoImplicit false

namespace DocCatalog

/-! ### Mentions -/

/-- Who is an accessor in an attribute table. -/
def AttributeTable.Mentions (t : AttributeTable) (d : EntityId) : Prop :=
  ∃ p ∈ t.toList, p.2.2.read = some d ∨ p.2.2.write = some d

/-- Who is named in the tables that a namespace keeps beside its members: accessors and aliases. -/
def Tables.Mentions (t : Tables) (d : EntityId) : Prop :=
  (∃ s a, t.attributes? s = some a ∧ a.Mentions d) ∨ ∃ p ∈ t.aliases.toList, p.1 = some d

/-- Who is named in the tables of an entity; what is no namespace names nobody. -/
def Entity.Mentions (x : Entity) (d : EntityId) : Prop := ∃ t, x.tables? = some t ∧ t.Mentions d

theorem OrderedTable.mem_write {κ α : Type} [DecidableEq κ] {k : κ} {v : α} {p : κ × α}
    {l : List (κ × α)} (h : p ∈ write k v l) : p = (k, v) ∨ p ∈ l := by
  induction l with
  | nil => exact .inl (by simpa [write] using h)
  | cons q l ih =>
      rw [write] at h
      split at h
      · rcases List.mem_cons.1 h with h | h
        · exact .inl h
        · exact .inr (by simp [h])
      · rcases List.mem_cons.1 h with h | h
        · exact .inr (by simp [h])
        · exact (ih h).imp_right fun h => by simp [h]

namespace AttributeTable

variable {t : AttributeTable} {d : EntityId}

theorem not_mentions_empty : ¬ (∅ : AttributeTable).Mentions d := by
  rintro ⟨p, hp, -⟩
  cases hp

theorem mentions_of_find? {name : Value} {a : Accessors} (h : ValueTable.find? t name = some a)
    (hd : a.read = some d ∨ a.write = some d) : t.Mentions d := by
  obtain ⟨q, hq, rfl⟩ := Option.map_eq_some_iff.1 h
  exact ⟨_, (t.get?_eq_some_iff _ _).1 hq, hd⟩

/-- An attribute that is extended mentions whom the table mentioned, and the accessors given. -/
theorem mentions_extend {name : Value} {read write : Option EntityId}
    (h : (t.extend name read write).Mentions d) :
    t.Mentions d ∨ read = some d ∨ write = some d := by
  obtain ⟨p, hp, hd⟩ := h
  rcases OrderedTable.mem_write hp with rfl | hp
  · cases hold : ValueTable.find? t name with
    | none =>
        simp only [hold, Option.getD_none, Accessors.extend, Option.or_none] at hd
        exact .inr hd
    | some a =>
        simp only [hold, Option.getD_some, Accessors.extend, Option.or_eq_some_iff] at hd
        rcases hd with (hd | ⟨-, hd⟩) | (hd | ⟨-, hd⟩)
        · exact .inr (.inl hd)
        · exact .inl (mentions_of_find? hold (.inl hd))
        · exact .inr (.inr hd)
        · exact .inl (mentions_of_find? hold (.inr hd))
  · exact .inl ⟨p, hp, hd⟩

end AttributeTable

namespace Tables

variable {t : Tables} {d : EntityId}

theorem not_mentions_empty : ¬ ({} : Tables).Mentions d := by
  rintro (⟨s, a, ha, hd⟩ | ⟨p, hp, -⟩)
  · cases s <;> cases ha <;> exact AttributeTable.not_mentions_empty hd
  · cases hp

theorem mentions_congr {u : Tables} (hs : ∀ s, u.attributes? s = t.attributes? s)
    (ha : u.aliases = t.aliases) : u.Mentions d ↔ t.Mentions d := by
  simp only [Mentions, hs, ha]

theorem mentions_setAttributes {s : Scope} {a : Option AttributeTable}
    (h : (t.setAttributes s a).Mentions d) : t.Mentions d ∨ ∃ b, a = some b ∧ b.Mentions d := by
  rcases h with ⟨s', b, hb, hd⟩ | ⟨p, hp, hd⟩
  · rw [attributes?_setAttributes] at hb
    split at hb
    · exact .inr ⟨b, hb, hd⟩
    · exact .inl (.inl ⟨s', b, hb, hd⟩)
  · exact .inl (.inr ⟨p, by simpa using hp, hd⟩)

theorem mentions_of_attributes {s : Scope} (h : ((t.attributes? s).getD ∅).Mentions d) :
    t.Mentions d := by
  cases ha : t.attributes? s with
  | none =>
      rw [ha] at h
      exact (AttributeTable.not_mentions_empty h).elim
  | some a =>
      rw [ha] at h
      exact .inl ⟨s, a, ha, h⟩

/-- A table that comes back if it was dropped mentions nobody new and forgets nobody. -/
theorem mentions_restored {s : Scope} :
    (t.setAttributes s (some ((t.attributes? s).getD ∅))).Mentions d ↔ t.Mentions d := by
  constructor
  · intro h
    rcases mentions_setAttributes h with h | ⟨_, ⟨⟩, hd⟩
    · exact h
    · exact mentions_of_attributes hd
  · rintro (⟨s', a, ha, hd⟩ | ⟨p, hp, hd⟩)
    · refine .inl ⟨s', a, ?_, hd⟩
      rw [attributes?_setAttributes]
      split
      · next hs => rw [hs, ha]; rfl
      · exact ha
    · exact .inr ⟨p, by simpa using hp, hd⟩

theorem mentions_insertAlias {e? : Option EntityId} {name : String}
    (h : ({ t with aliases := t.aliases.insert e? name } : Tables).Mentions d) :
    t.Mentions d ∨ e? = some d := by
  rcases h with h | ⟨p, hp, hd⟩
  · exact .inl (.inl (by simpa only [attributes?] using h))
  · rcases OrderedTable.mem_write hp with rfl | hp
    · exact .inr hd
    · exact .inl (.inr ⟨p, hp, hd⟩)

end Tables

namespace Entity

variable {x : Entity} {d : EntityId}

theorem mentions_of_updateTables {f : Tables → Tables} (h : (x.updateTables f).Mentions d) :
    ∃ t, x.tables? = some t ∧ (f t).Mentions d := by
  obtain ⟨t, ht, hd⟩ := h
  rw [tables?_updateTables, Option.map_eq_some_iff] at ht
  obtain ⟨t, ht, rfl⟩ := ht
  exact ⟨t, ht, hd⟩

theorem mentions_congr {y : Entity} (h : x.tables? = y.tables?) : x.Mentions d ↔ y.Mentions d := by
  rw [Mentions, Mentions, h]

/-! ### What can be declared -/

namespace Declarable

variable (h : x.Declarable)
include h

theorem updateTables (f : Tables → Tables) : (x.updateTables f).Declarable := fun m hm =>
  h m (by rwa [method?_updateTables] at hm)

theorem addFile (file line : Value) : (x.addFile file line).Declarable := by
  unfold Entity.addFile
  split <;> exact h

/-- A method that is given no parameters that cannot be declared. -/
theorem updateMethod {f : MethodFields → MethodFields}
    (hf : ∀ m, (∀ p ∈ m.parameters, p.Declarable) → ∀ p ∈ (f m).parameters, p.Declarable) :
    (x.updateMethod f).Declarable := by
  intro m' hm'
  rw [method?_updateMethod, Option.map_eq_some_iff] at hm'
  obtain ⟨m, hm, rfl⟩ := hm'
  exact hf m (h m hm)

end Declarable

end Entity

/-! ### New entities -/

/-- What a new entity may be: an entry, a method, or a namespace that is no root and keeps nothing
yet. -/
def Form.IsNew : Form → Prop
  | .entry => True
  | .space isRoot t => isRoot = false ∧ t = {}
  | .method _ => True

namespace Form.IsNew

variable {x : Entity} (h : x.form.IsNew)
include h

theorem kind_ne_root : x.kind ≠ .root := by
  cases hf : x.form with
  | space isRoot t =>
      rw [hf] at h
      simp [Entity.kind, hf, h.1]
  | _ => simp [Entity.kind, hf]

theorem slots_eq : x.slots = ∅ := by
  cases hf : x.form with
  | space isRoot t =>
      rw [hf] at h
      simp [Entity.slots, Entity.tables?, hf, h.2]
  | _ => exact Entity.slots_eq_empty (by simp [Entity.isSpace, hf])

theorem not_mentions {d : EntityId} : ¬ x.Mentions d := by
  rintro ⟨t, ht, hd⟩
  cases hf : x.form with
  | space isRoot u =>
      rw [hf] at h
      simp only [Entity.tables?, hf, h.2, Option.some.injEq] at ht
      exact Tables.not_mentions_empty (ht ▸ hd)
  | _ => simp [Entity.tables?, hf] at ht

end Form.IsNew

namespace Catalog

open DocCatalog.Action (Ends)

variable {c : Catalog} {r : Registry} {n e : EntityId}

/-- A change of an entity that leaves alone what identifies it and its members, and by which it
mentions nobody but those that it mentioned and some others. -/
structure Touch (c : Catalog) (e : EntityId) (f : Entity → Entity) (others : EntityId → Prop) :
    Prop where
  identity : ∀ x, (f x).identity = x.identity
  slots : ∀ x, (f x).slots = x.slots
  mentions : ∀ {d}, (f (c.entity e)).Mentions d → (c.entity e).Mentions d ∨ others d

namespace Touch

variable {others : EntityId → Prop}

/-- A change that leaves the tables alone. -/
theorem of_tables? {f : Entity → Entity} (hi : ∀ x, (f x).identity = x.identity)
    (ht : ∀ x, (f x).tables? = x.tables?) : Touch c e f others where
  identity := hi
  slots x := by rw [Entity.slots, Entity.slots, ht]
  mentions h := .inl ((Entity.mentions_congr (ht _)).1 h)

theorem setDocstring (v : Value) : Touch c e (fun x => { x with docstring := v }) others :=
  of_tables? (fun _ => rfl) fun _ => rfl

theorem addFile (file line : Value) : Touch c e (fun x => x.addFile file line) others :=
  of_tables? (fun x => x.identity_addFile file line)
    fun x => by unfold Entity.addFile; split <;> rfl

theorem updateMethod {f : MethodFields → MethodFields} (hf : ∀ m, (f m).scope = m.scope) :
    Touch c e (fun x => x.updateMethod f) others :=
  of_tables? (Entity.identity_updateMethod hf) fun x => x.tables?_updateMethod f

/-- A change of what a namespace keeps beside its members. -/
theorem updateTables {f : Tables → Tables} (hm : ∀ t, (f t).members = t.members)
    (hd : ∀ {t d}, (c.entity n).tables? = some t → (f t).Mentions d → t.Mentions d ∨ others d) :
    Touch c n (fun x => x.updateTables f) others where
  identity x := x.identity_updateTables f
  slots := Entity.slots_updateTables_of_members hm
  mentions h := by
    obtain ⟨t, ht, h⟩ := Entity.mentions_of_updateTables h
    exact (hd ht h).imp_left fun h => ⟨t, ht, h⟩

theorem setAttributes {s : Scope} {a : Option AttributeTable}
    (ha : ∀ {b d}, a = some b → b.Mentions d → (c.tables n).Mentions d ∨ others d) :
    Touch c n (fun x => x.updateTables fun t => t.setAttributes s a) others :=
  updateTables (fun t => t.members_setAttributes s a) fun {t d} ht h => by
    rcases Tables.mentions_setAttributes h with h | ⟨b, hb, hd⟩
    · exact .inl h
    · have htables : c.tables n = t := by rw [tables, ht]; rfl
      exact htables ▸ ha hb hd

theorem addAlias {e? : Option EntityId} (he : ∀ d, e? = some d → others d) (name : String) :
    Touch c n (fun x => x.updateTables fun t =>
      { t with aliases := t.aliases.insert e? name }) others :=
  updateTables (fun _ => rfl) fun _ h => (Tables.mentions_insertAlias h).imp_right (he _)

end Touch

/-- A touch after which an entity can be declared if it could before. -/
structure Describes (c : Catalog) (e : EntityId) (f : Entity → Entity) (others : EntityId → Prop) :
    Prop extends Touch c e f others where
  declarable : ∀ {x}, x.Declarable → (f x).Declarable

/-- An attribute is written down by two touches of its namespace, of which the second may be
missing. -/
theorem ends_addAttribute {P : Catalog → Prop} {G : EntityId → Prop}
    (htouch : ∀ {c f}, P c → Describes c n f G → P (c.update n f)) (scope name : Value)
    {read write : Option EntityId} (hread : ∀ d, read = some d → G d)
    (hwrite : ∀ d, write = some d → G d) (h : P c) :
    (addAttribute n scope name read write).Ends c (fun _ => P) fun _ => P := by
  unfold addAttribute
  split
  · exact .throw h
  · next s _ =>
      -- the table is put back as it was, and then the attribute is written into it
      have hfirst : Touch c n (fun x => x.updateTables fun t =>
          t.setAttributes s (some (((c.tables n).attributes? s).getD ∅))) G :=
        .updateTables (fun t => t.members_setAttributes s _) fun {t d} ht h => by
          have htables : c.tables n = t := by rw [tables, ht]; rfl
          exact .inl (Tables.mentions_restored.1 (htables ▸ h))
      refine .get (.bind (Q := fun _ c' => P c' ∧ ∀ d, (c.tables n).Mentions d →
        (c'.tables n).Mentions d)
        (.change ⟨htouch h ⟨hfirst, fun h => h.updateTables _⟩, fun d hd => ?_⟩) ?_)
      · cases hs : (c.entity n).isSpace with
        | true =>
            rw [tables_updateTables c n n _ hs, if_pos rfl]
            exact Tables.mentions_restored.2 hd
        | false =>
            have htables : c.tables n = {} := by
              rw [tables]
              cases hf : (c.entity n).form with
              | space isRoot t => simp [Entity.isSpace, hf] at hs
              | _ => simp [Entity.tables?, hf]; rfl
            exact (Tables.not_mentions_empty (htables ▸ hd)).elim
      · rintro _ c₁ ⟨h₁, hkept⟩
        split
        · exact .throw h₁
        · refine .bind (Q := fun _ => P)
            (.change (htouch h₁ ⟨.setAttributes ?_, fun h => h.updateTables _⟩)) fun _ _ h => .pure h
          rintro _ d ⟨⟩ hd
          rcases AttributeTable.mentions_extend hd with hd | hd | hd
          · exact .inl (hkept d (Tables.mentions_of_attributes hd))
          · exact .inr (hread d hd)
          · exact .inr (hwrite d hd)

end Catalog

/-! ### The walk -/

namespace Manifest

open Catalog
open DocCatalog.Action (Ends)

variable {c : Catalog} {r : Registry} {P : Catalog → Prop} {I J : EntityId → Catalog → Prop}
  {e n m : EntityId} {entry : Fields} {part : Part}

/-- What a registry holds at some path, the root included. -/
def HeldBy (r : Registry) (c : Catalog) (d : EntityId) : Prop := ∃ p, c.lookup? r p = some d

theorem heldBy_of_methodAt {path : String} (hm : methodAt c r path part = .ok m) :
    HeldBy r c m := by
  unfold methodAt at hm
  split at hm
  · cases hm
  · next e he =>
      split at hm
      · cases hm
        exact ⟨path, he⟩
      · cases hm

theorem heldBy_of_methodAt? {path? : Option String} {m? : Option EntityId}
    (hm : methodAt? c r path? part = .ok m?) : ∀ d, m? = some d → HeldBy r c d := by
  rintro d rfl
  cases path? with
  | none => cases hm
  | some path =>
      cases hat : methodAt c r path part with
      | error fault => simp [methodAt?, hat, Except.map] at hm
      | ok e =>
          simp only [methodAt?, hat, Except.map, Except.ok.injEq, Option.some.injEq] at hm
          exact hm ▸ heldBy_of_methodAt hat

/-- What loading into a registry keeps: a property of catalogs, one of the namespaces that loading
comes to, and one of the methods that it makes. -/
structure Walk (r : Registry) (P : Catalog → Prop) (I J : EntityId → Catalog → Prop) : Prop where
  keeps : ∀ {n c}, I n c → P c
  made_keeps : ∀ {m c}, J m c → P c
  root : ∀ {c}, P c → I (c.root r) c
  member : ∀ {n e c name}, I n c → c.nestedSpace? n name = some e → I e c
  /-- A namespace is made below one that was come to. -/
  found : ∀ {n c name}, I n c → I ⟨c.entities.size⟩ (c.founded
    (c.newEntity { owner? := some n, name } (c.entity n).home fun _ => .space false {}))
  /-- A method is made below a namespace that was come to, and has no parameters yet. -/
  make : ∀ {n c name} {fields : Registry → MethodFields}, I n c →
    (∀ home, (fields home).parameters = []) → J ⟨c.entities.size⟩ (c.founded
      (c.newEntity { owner? := some n, name } (c.entity n).home fun home => .method (fields home)))
  enter : ∀ {e c}, I e c → (c.entity e).home = r → I e (c.enter r e)
  made_enter : ∀ {m c}, J m c → (c.entity m).home = r → P (c.enter r m)
  touch : ∀ {n c f}, I n c → Describes c n f (HeldBy r c) → I n (c.update n f)
  made_touch : ∀ {m c f}, J m c → Describes c m f (HeldBy r c) → J m (c.update m f)
  loaded : ∀ {c}, P c → P (c.note r (.loaded (c.entries r).size))

/-- Reading plain data changes nothing. -/
theorem ends_read {α : Type} {q : Except Fault α} (hc : P c) :
    (liftM q : Action α).Ends c (fun x c' => q = .ok x ∧ c' = c) fun _ => P :=
  .lift (fun _ hx => ⟨hx, rfl⟩) fun _ _ => hc

/-! ### What an entry says about an entity -/

/-- Parameters that an entry gives have texts for names, and so can be declared. -/
theorem declarable_of_parameters {items : List Value} {ps : List Parameter}
    (hitems : parameters entry = .ok items) (hps : Parameter.ofItems items = .ok ps) :
    ∀ p ∈ ps, p.Declarable := fun p hp =>
  .inr (name_of_isParameter
    (isParameter_of_mapM (isParameter_of_parameters hitems) (ofItems_eq_ok hps) p hp))

section Describing

variable {K : EntityId → Catalog → Prop} (hkeeps : ∀ {e c}, K e c → P c)
  (htouch : ∀ {e c f}, K e c → Describes c e f (HeldBy r c) → K e (c.update e f))
include hkeeps htouch

/-- Documentation and place touch the entity alone. -/
theorem touches_annotate (he : K e c) :
    (annotate e entry part).Ends c (fun _ => K e) fun _ => P := by
  have hdocument : (document e entry part).Ends c (fun _ => K e) fun _ => P := by
    unfold document
    split
    · refine .bind (ends_read (hkeeps he)) ?_
      rintro docstring c₁ ⟨-, rfl⟩
      exact .change (htouch he ⟨.setDocstring _, fun h => h⟩)
    · exact .pure he
  refine .bind hdocument fun _ c₁ he => .bind (ends_read (hkeeps he)) ?_
  rintro place c₂ ⟨-, rfl⟩
  split
  · exact .change (htouch he ⟨.addFile _ _, fun h => h.addFile _ _⟩)
  · exact .pure he

/-- A description touches the method alone. -/
theorem touches_describe (hm : K m c) : (describe m entry).Ends c (fun _ => K m) fun _ => P := by
  have hexpose : (expose m entry).Ends c (fun _ => K m) fun _ => P := by
    unfold expose setVisibility
    split
    · split
      · exact .throw (hkeeps hm)
      · exact .change (htouch hm ⟨.updateMethod fun _ => rfl, fun h => h.updateMethod fun _ hd => hd⟩)
    · exact .pure hm
  refine .bind hexpose fun _ c₁ hm => .bind (ends_read (hkeeps hm)) ?_
  rintro items c₂ ⟨hitems, rfl⟩
  have hset : (setParameters m (.list items)).Ends c₂ (fun _ => K m) fun _ => P := by
    unfold setParameters
    split
    · exact .throw (hkeeps hm)
    · next ps hps =>
        exact .change (htouch hm ⟨.updateMethod fun _ => rfl, fun h => h.updateMethod fun _ _ =>
          declarable_of_parameters hitems hps⟩)
  refine .bind hset fun _ c₃ hm => ?_
  refine .bind (Q := fun _ => K m)
    (.change (htouch hm ⟨.updateMethod fun _ => rfl, fun h => h.updateMethod fun _ hd => hd⟩)) ?_
  exact fun _ c₄ hm => touches_annotate hkeeps htouch hm

end Describing

namespace Walk

variable (h : Walk r P I J)
include h

/-! ### Namespaces on the way -/

theorem ends_ensureNested (hn : I n c) (name : String) :
    (ensureNested r n name).Ends c I fun _ => P := by
  have hmake : (makeSpace { owner? := some n, name := .text name }).Ends c I fun _ => P :=
    .of_ok (make_of_homeOf? rfl) (h.found hn)
  refine .get ?_
  split
  · next hs => exact .pure (h.member hn hs)
  · refine .bind hmake fun e c₁ he => .bind (Q := fun _ => I e) (.get ?_) fun _ _ he => .pure he
    split
    · next hh => exact .set (h.enter he hh)
    · exact .throw (h.keeps he)

/-- **Making the namespaces of a path keeps what its steps keep.** -/
theorem ends_ensureNamespace (hc : P c) (path : String) :
    (ensureNamespace r path).Ends c I fun _ => P := by
  refine .get ?_
  split
  · exact .pure (h.root hc)
  · refine .foldlM (fun name _ n c hn => ?_) (h.root hc)
    split
    · exact .throw (h.keeps hn)
    · exact h.ends_ensureNested hn name

/-! ### Entries -/

theorem ends_loadNamespace (hc : P c) : (loadNamespace r entry).Ends c (fun _ => P) fun _ => P := by
  refine .bind (ends_read hc) ?_
  rintro path c₁ ⟨-, rfl⟩
  refine .bind (h.ends_ensureNamespace hc path) fun n c₂ hn => ?_
  have hannotate : (annotate n entry .namespaces).Ends c₂ (fun _ => I n) fun _ => P :=
    touches_annotate h.keeps h.touch hn
  exact hannotate.mono (fun _ _ hn => h.keeps hn) fun _ _ hc => hc

theorem ends_loadMethod (hc : P c) : (loadMethod r entry).Ends c (fun _ => P) fun _ => P := by
  refine .bind (ends_read hc) ?_
  rintro path c₁ ⟨-, rfl⟩
  refine .bind (h.ends_ensureNamespace hc path) fun n c₂ hn => .bind (ends_read (h.keeps hn)) ?_
  rintro name c₃ ⟨-, rfl⟩
  have hmake : (makeMethod { owner? := some n, name := .text name } (scopeField entry)).Ends c₃ J
      fun _ => P := by
    unfold makeMethod
    split
    · exact .throw (h.keeps hn)
    · exact .of_ok (make_of_homeOf? rfl) (h.make hn fun _ => rfl)
  refine .bind hmake fun m c₄ hm => ?_
  refine .bind (touches_describe h.made_keeps h.made_touch hm) fun _ c₅ hm => .get ?_
  split
  · next hh => exact .set (h.made_enter hm hh)
  · exact .throw (h.made_keeps hm)

theorem ends_loadAttribute (hc : P c) : (loadAttribute r entry).Ends c (fun _ => P) fun _ => P := by
  refine .bind (ends_read hc) ?_
  rintro path c₁ ⟨-, rfl⟩
  refine .bind (h.ends_ensureNamespace hc path) fun n c₂ hn => .bind (ends_read (h.keeps hn)) ?_
  rintro name c₃ ⟨-, rfl⟩
  refine .get (.bind (ends_read (h.keeps hn)) ?_)
  rintro readPath? c₄ ⟨-, rfl⟩
  refine .bind (ends_read (h.keeps hn)) ?_
  rintro read c₅ ⟨hread, rfl⟩
  refine .get (.bind (ends_read (h.keeps hn)) ?_)
  rintro writePath? c₆ ⟨-, rfl⟩
  refine .bind (ends_read (h.keeps hn)) ?_
  rintro write c₇ ⟨hwrite, rfl⟩
  -- the touches of a namespace change nothing of what the registry holds
  have hadd : (addAttribute n (scopeField entry) (.text name) read write).Ends c₇
      (fun _ c' => I n c' ∧ HeldBy r c' = HeldBy r c₇)
      fun _ c' => I n c' ∧ HeldBy r c' = HeldBy r c₇ :=
    Catalog.ends_addAttribute (fun hc' ht => ⟨h.touch hc'.1 (hc'.2 ▸ ht), hc'.2⟩) _ _
      (heldBy_of_methodAt? hread) (heldBy_of_methodAt? hwrite) ⟨hn, rfl⟩
  exact .bind (hadd.mono (fun _ _ hn => h.keeps hn.1) fun _ _ hn => h.keeps hn.1)
    fun _ c₈ h₈ => .pure h₈

theorem ends_loadAlias (hc : P c) : (loadAlias r entry).Ends c (fun _ => P) fun _ => P := by
  refine .bind (ends_read hc) ?_
  rintro path c₁ ⟨-, rfl⟩
  refine .bind (h.ends_ensureNamespace hc path) fun n c₂ hn => ?_
  refine .get (.bind (ends_read (h.keeps hn)) ?_)
  rintro target c₃ ⟨-, rfl⟩
  refine .bind (ends_read (h.keeps hn)) ?_
  rintro m c₄ ⟨hm, rfl⟩
  refine .bind (ends_read (h.keeps hn)) ?_
  rintro name c₅ ⟨-, rfl⟩
  refine .change (h.keeps (h.touch hn ⟨.addAlias ?_ _, fun h => h.updateTables _⟩))
  rintro d ⟨⟩
  exact heldBy_of_methodAt hm

theorem ends_loadEntry (hc : P c) : (loadEntry r part entry).Ends c (fun _ => P) fun _ => P := by
  cases part with
  | namespaces => exact h.ends_loadNamespace hc
  | methods => exact h.ends_loadMethod hc
  | attributes => exact h.ends_loadAttribute hc
  | aliases => exact h.ends_loadAlias hc

/-! ### Manifests -/

theorem ends_loadParts (fields : Fields) (hc : P c) :
    (loadParts r fields).Ends c (fun _ => P) fun _ => P := by
  refine .bind (Q := fun _ => P) (.forM (fun part _ c hc => ?_) hc)
    fun _ c₁ h₁ => .change (h.loaded h₁)
  refine .bind (ends_read hc) ?_
  rintro entries c₁ ⟨-, rfl⟩
  exact .forM (fun entry _ c hc => h.ends_loadEntry hc) hc

/-- **Loading a manifest keeps what its steps keep, wherever it stops.** -/
theorem ends_load (data : Value) (hc : P c) : (load r data).Ends c (fun _ => P) fun _ => P := by
  refine .bind (ends_read hc) ?_
  rintro fields c₁ ⟨-, rfl⟩
  exact h.ends_loadParts fields hc

end Walk

end Manifest

end DocCatalog
