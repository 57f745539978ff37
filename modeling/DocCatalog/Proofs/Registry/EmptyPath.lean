/-
**Who is found at the empty path.**

The empty path is the root's, and whoever looks there finds the root.  But an entity is put at its
path whatever that is, and roots are not the only entities whose path is empty: so is that of a
namespace, or of an entry, without a name at the top level.  Such an entity can be registered, and
then it is held where it is never found.  Nothing else ever comes to the empty path: a namespace
that is made on the way has a name, a method has a separator in its path, and a change of path never
makes a path empty.

Main definitions:

* `Catalog.Vacant`: no registry holds anything under the empty path;
* `Session.NamedStep`: a step that registers nothing under the empty path itself.

Main results:

* `Entity.path_eq_empty_iff`: whose path is empty;
* `Session.NamedStep.unclaimed`: a step that registers nothing under the empty path itself leaves it
  vacant;
* `Session.found_at_own_path`: **what is registered is found at its path exactly when the path is
  not empty, or it is the root**.
-/

import DocCatalog.Proofs.Manifest.Upholding

set_option autoImplicit false

namespace DocCatalog

/-! ### Empty paths -/

theorem Separators.methodPath_ne_empty {s : Separators} (hs : s.Distinct) (name owner : String)
    (scope : Scope) : s.methodPath name owner scope ≠ "" := by
  obtain ⟨hnested, hclass, hinstance, -⟩ := hs
  have hsep : s.methodSeparator scope owner ≠ "" := by
    unfold methodSeparator
    split
    · exact hinstance
    · split
      · exact hnested
      · exact hclass
  simp [methodPath, hsep]

theorem Separators.namespacePath_eq_empty_iff {s : Separators} (hs : s.Distinct)
    (name owner : String) : s.namespacePath name owner = "" ↔ name = "" ∧ owner = "" := by
  by_cases ho : owner = ""
  · simp [namespacePath, isTopLevel, ho]
  · simp [namespacePath, isTopLevel, ho, hs.1]

namespace Entity

variable {x y : Entity}

/-- The path of an entity is empty if it is a root, or if it is no method, has no name and is owned
by nothing that has a path. -/
theorem path_eq_empty_iff (x : Entity) : x.path = "" ↔
    x.kind = .root ∨ (x.kind ≠ .method ∧ x.name = "" ∧ x.ownerPath = "") := by
  have hs : x.home.separators.Distinct := x.home.config.distinct
  cases hf : x.form with
  | entry => simp [path, kind, hf, Separators.namespacePath_eq_empty_iff hs]
  | space isRoot t =>
      cases isRoot <;> simp [path, kind, hf, Separators.namespacePath_eq_empty_iff hs]
  | method fields => simp [path, kind, hf, Separators.methodPath_ne_empty hs]

/-- Whether the path is empty is settled when an entity is made. -/
theorem path_eq_empty_iff_of_settled (h : x.settled = y.settled) : x.path = "" ↔ y.path = "" := by
  rw [path_eq_empty_iff, path_eq_empty_iff, kind_eq_of_settled h, name_eq_of_settled h, ownerPath,
    ownerPath, lineage_eq_of_settled h]

end Entity

namespace Catalog

variable {c c' : Catalog} {r : Registry} {e n : EntityId}

/-- No registry holds anything under the empty path. -/
def Vacant (c : Catalog) : Prop := ∀ r, (c.entries r).get? "" = none

namespace Vacant

theorem of_stock (h : c.Vacant) (hs : c'.stock = c.stock) : c'.Vacant := fun r => by
  rw [entries_congr hs, h r]

theorem retouch (ht : Retouches e c c') (h : c.Vacant) : c'.Vacant := h.of_stock ht.stock

theorem put (h : c.Vacant) (r : Registry) (hp : c.path e ≠ "") : (c.put r e).Vacant := by
  by_cases hr : r.index < c.stock.size
  · intro r'
    rw [get?_entries_put c e r' "" hr, if_neg fun hput => hp hput.2]
    exact h r'
  · refine h.of_stock ?_
    simp [Catalog.put, updateEntries, updateHoldings, Array.modify, Array.modifyM, hr]

theorem take (h : c.Vacant) (r : Registry) (p : String) :
    (c.updateEntries r fun t => t.erase p).Vacant := by
  intro r'
  rw [get?_entries_take]
  split
  · rfl
  · exact h r'

theorem enter (h : c.Vacant) (r : Registry) (hp : c.path e ≠ "") : (c.enter r e).Vacant :=
  (h.put r hp).of_stock (stock_adoptByOwner _ e)

theorem delete (h : c.Vacant) (r : Registry) (e : EntityId) : (c.delete r e).Vacant := by
  simp only [Catalog.delete]
  split
  · exact (h.take r _).of_stock (stock_dismissByOwner _ e)
  · exact h

theorem openRekey (h : c.Vacant) (r : Registry) (e : EntityId) : (c.openRekey r e).2.Vacant := by
  simp only [Catalog.openRekey]
  split
  · exact h.take r _
  · exact h

theorem closeRekey (h : c.Vacant) {k : Rekeying}
    (hp : k.wasRegistered = true → c.path k.entity ≠ "") : (c.closeRekey k).Vacant := by
  simp only [Catalog.closeRekey]
  split
  · next hk => exact h.put k.registry (hp hk)
  · exact h

theorem openRegistry (h : c.Vacant) (config : Config) : (c.openRegistry config).2.Vacant := by
  intro r
  rw [entries_openRegistry]
  split
  · rfl
  · exact h r

theorem clear (h : c.Vacant) (ho : c.Opened r) : (c.clear r).Vacant := by
  intro r'
  rw [entries_clear r' ho.lt]
  split
  · rfl
  · exact h r'

/-- What is held is not held under the empty path, so its path was not empty when a change began. -/
theorem path_ne_empty (h : c.Vacant) (hk : (c.openRekey r e).1.wasRegistered = true) :
    c.path e ≠ "" := by
  intro hp
  have hget : (c.entries r).get? (c.path e) = some e := by
    simpa [Catalog.openRekey, isRegistered] using hk
  rw [hp, h r] at hget
  cases hget

/-- A method that gets another scope has a path before and after, and nothing else changes its
path. -/
theorem rescope (h : c.Vacant) (e : EntityId) (s : Scope) : (c.rescope e s).Vacant := by
  have hmoved : (c.rescoped e s).Vacant :=
    (h.openRekey _ e).of_stock (by rw [rescoped, stock_moveInOwner, stock_writeScope])
  rw [rescope_eq]
  refine hmoved.closeRekey fun hk => ?_
  have hset : ((c.rescoped e s).entity e).settled = (c.entity e).settled := by
    have hs := settled_rescope c e e s
    rwa [rescope_eq, entity_closeRekey] at hs
  exact mt (Entity.path_eq_empty_iff_of_settled hset).1 (h.path_ne_empty hk)

end Vacant

theorem entityAt_text_eq_ok_iff {p : String} :
    c.entityAt r (.text p) = .ok e ↔ c.lookup? r p = some e := by
  have hlookup : c.lookup r (.text p) = .ok (c.lookup? r p) := by
    simp [lookup, nameArgument, Value.unhashableKind?, Value.text?]
  rw [entityAt, hlookup]
  cases c.lookup? r p with
  | none => exact ⟨fun h => (by cases h), fun h => (by cases h)⟩
  | some found => exact ⟨fun h => congrArg some (Except.ok.inj h), fun h => by cases h; rfl⟩

/-! ### Steps that leave the empty path vacant -/

open DocCatalog.Action (Ends)

/-- Making an entity registers nothing, and its path is empty only if it was made so. -/
theorem ends_make {kind : EntityKind} {form : Registry → Form} {o : Origin}
    (hp : ∀ home, (c.newEntity o home form).path ≠ "") (h : c.Vacant) :
    (make kind form o).Ends c (fun e c' => c'.Vacant ∧ c'.Knows e ∧ c'.path e ≠ "")
      fun _ => Vacant := by
  unfold Ends
  cases hh : c.homeOf? o with
  | none =>
      rw [make_of_homeless hh]
      exact h
  | some home =>
      rw [make_of_homeOf? hh]
      have hid := Entity.identity_eq_of_bare (c.bare_founded_self (c.newEntity o home form))
      refine ⟨h.of_stock (stock_adoptByOwner _ _), c.knows_founded _, ?_⟩
      rw [path]
      exact (Entity.path_eq_of_identity hid).trans_ne (hp home)

theorem keeps_make {kind : EntityKind} {form : Registry → Form} {o : Origin} :
    (make kind form o).Keeps Vacant := by
  intro c h
  unfold Ends
  cases hh : c.homeOf? o with
  | none =>
      rw [make_of_homeless hh]
      exact h
  | some home =>
      rw [make_of_homeOf? hh]
      exact h.of_stock (stock_adoptByOwner _ _)

theorem keeps_makeMethod (o : Origin) (scope : Value) : (makeMethod o scope).Keeps Vacant := by
  unfold makeMethod
  split
  · exact .throw _
  · exact keeps_make

theorem ends_register (r : Registry) (hp : c.path e ≠ "") (h : c.Vacant) :
    (register r e).Ends c (fun _ => Vacant) fun _ => Vacant := by
  refine Ends.get ?_
  split
  · exact .set (h.enter r hp)
  · exact .throw h

/-- A namespace that is missing is made with the name that it is looked for under. -/
theorem ends_ensureNested (r : Registry) (n : EntityId) {name : String} (hname : name ≠ "")
    (h : c.Vacant) : (ensureNested r n name).Ends c (fun _ => Vacant) fun _ => Vacant := by
  refine Ends.get ?_
  split
  · exact .pure h
  · refine .bind (ends_make (fun home => ?_) h) fun e c₁ h₁ => ?_
    · rw [Ne, Entity.path_eq_empty_iff]
      simp [newEntity, Entity.kind, Value.display, hname]
    · exact .bind (ends_register r h₁.2.2 h₁.1) fun _ c₂ h₂ => .pure h₂

theorem keeps_setScope (e : EntityId) (v : Value) : (setScope e v).Keeps Vacant := by
  intro c h
  unfold setScope
  split
  · exact .throw h
  · refine Ends.get ?_
    split
    · exact .pure h
    · exact .set (h.rescope e _)

theorem keeps_setVisibility (e : EntityId) (v : Value) : (setVisibility e v).Keeps Vacant := by
  unfold setVisibility
  split
  · exact .throw _
  · exact .change fun c h => h.of_stock rfl

theorem keeps_setParameters (e : EntityId) (v : Value) : (setParameters e v).Keeps Vacant := by
  unfold setParameters
  split
  · exact .throw _
  · exact .change fun c h => h.of_stock rfl

theorem keeps_addAttribute (n : EntityId) (scope name : Value) (read write : Option EntityId) :
    (addAttribute n scope name read write).Keeps Vacant := by
  unfold addAttribute
  split
  · exact .throw _
  · refine .get fun d => .bind (.change fun c h => h.of_stock rfl) fun _ => ?_
    split
    · exact .throw _
    · exact .bind (.change fun c h => h.of_stock rfl) fun _ => .pure _

/-- All through the loading of a manifest nothing comes to the empty path. -/
theorem upheld_vacant (r : Registry) (data : Value) : Manifest.Upheld r data (fun _ => Vacant)
    (fun m c => c.Vacant ∧ c.Knows m ∧ c.path m ≠ "") fun _ => True where
  root h := h
  made_root h := h.1
  retouch ht h := h.retouch ht
  made_retouch ht h := ⟨h.1.retouch ht, ht.knows.2 h.2.1, by rw [ht.path]; exact h.2.2⟩
  nested hname h := (ends_ensureNested r _ hname h).mono (fun _ _ h => h) fun _ _ h => ⟨trivial, h⟩
  make _ h := by
    unfold makeMethod
    split
    · exact .throw ⟨trivial, h⟩
    · refine (ends_make (fun home => ?_) h).mono (fun _ _ h => h) fun _ _ h => ⟨trivial, h⟩
      rw [Ne, Entity.path_eq_empty_iff]
      simp [newEntity, Entity.kind]
  register h := (ends_register r h.2.2 h.1).mono (fun _ _ h => h) fun _ _ h => ⟨trivial, h⟩
  malformed _ _ := trivial
  scope _ _ := trivial
  visibility _ _ _ := trivial

end Catalog

/-! ### Sessions -/

namespace Operation

open Catalog

/-- An operation does not itself register an entity whose path is empty. -/
def Named (c : Catalog) : Operation → Prop
  | register _ e => c.path e ≠ ""
  | _ => True

/-- An operation leaves the empty path vacant, if it does not itself register anything there. -/
theorem vacant {c : Catalog} {op : Operation} (h : op.Granted c) (hn : op.Named c)
    (hv : c.Vacant) : (op.action c).2.Vacant := by
  have hdrop : ∀ {α : Type} {a : Action α}, a.Ends c (fun _ => Vacant) (fun _ => Vacant) →
      (do let _ ← a : Action Unit).Ends c (fun _ => Vacant) fun _ => Vacant :=
    fun ha => .bind ha fun _ _ hv => .pure hv
  have hstop : ∀ {α : Type} {a : Action α} {c : Catalog},
      a.Ends c (fun _ => Vacant) (fun _ c' => True ∧ c'.Vacant) →
        a.Ends c (fun _ => Vacant) fun _ => Vacant :=
    fun ha => ha.mono (fun _ _ hv => hv) fun _ _ hv => hv.2
  refine Action.Ends.run ?_
  cases op with
  | openRegistry config => exact .change (hv.openRegistry config)
  | clear r => exact .change (hv.clear h)
  | makeEntry o => exact hdrop (keeps_make c hv)
  | makeSpace o => exact hdrop (keeps_make c hv)
  | makeMethod o scope => exact hdrop (keeps_makeMethod o scope c hv)
  | register r e => exact ends_register r hn hv
  | delete r e => exact .change (hv.delete r e)
  | dismiss n e => exact .change (hv.of_stock (c.stock_dismiss n e))
  | setScope e scope => exact keeps_setScope e scope c hv
  | setVisibility e visibility => exact keeps_setVisibility e visibility c hv
  | setParameters e parameters => exact keeps_setParameters e parameters c hv
  | setExplicit e explicit => exact .change (hv.of_stock rfl)
  | setDocstring e docstring => exact .change (hv.of_stock rfl)
  | addFile e file line => exact .change (hv.of_stock rfl)
  | addAttribute n scope name read write =>
      exact hdrop (keeps_addAttribute n scope name read write c hv)
  | dropAttributes n s => exact .change (hv.of_stock rfl)
  | addAlias n e? name => exact .change (hv.of_stock rfl)
  | ensureNamespace r path =>
      exact hdrop (hstop ((upheld_vacant r .null).ends_ensureNamespace hv path))
  | load r data => exact hstop ((upheld_vacant r data).ends_load hv)
  | loadFresh data =>
      refine hdrop (.bind (Q := fun fields c' => Manifest.sections data = .ok fields ∧ c'.Vacant)
        (.lift (fun fields hf => ⟨hf, hv⟩) fun _ _ => hv) ?_)
      rintro fields c₁ ⟨hfields, h₁⟩
      refine .get (.bind (Q := fun _ => Vacant) (.set (h₁.openRegistry {})) fun _ c₂ h₂ => ?_)
      exact .bind (hstop ((upheld_vacant _ data).ends_loadParts hfields h₂)) fun _ _ h₃ => .pure h₃

end Operation

namespace Session

open Catalog

variable {s s' : Session}

/-- A step that does not itself register anything under the empty path. -/
inductive NamedStep (s : Session) : Session → Prop where
  /-- An operation is done, or fails on the way and keeps what it did before. -/
  | act (op : Operation) (h : op.Granted s.catalog) (hn : op.Named s.catalog) :
      NamedStep s { s with catalog := (op.action s.catalog).2 }
  /-- A change of path begins, in any registry and for any entity. -/
  | enter {r : Registry} {e : EntityId} (hr : s.catalog.Opened r) (hk : s.catalog.Knows e) :
      NamedStep s ⟨(s.catalog.openRekey r e).2, (s.catalog.openRekey r e).1 :: s.blocks⟩
  /-- The innermost change of path ends. -/
  | leave {k : Rekeying} {ks : List Rekeying} (h : s.blocks = k :: ks) :
      NamedStep s ⟨s.catalog.closeRekey k, ks⟩

/-- Any number of steps, none of which registers anything under the empty path itself. -/
abbrev NamedSteps : Session → Session → Prop := Relation.ReflTransGen NamedStep

theorem NamedStep.step (h : NamedStep s s') : Step s s' := by
  cases h with
  | act op h hn => exact .act op h
  | enter hr hk => exact .enter hr hk
  | leave h => exact .leave h

theorem Reachable.of_named (h : NamedSteps {} s) : s.Reachable :=
  Relation.ReflTransGen.mono (fun _ _ h => h.step) _ _ h

/-- Nothing is held under the empty path, and no change of path that goes on will put anything
there. -/
structure Unclaimed (s : Session) : Prop where
  sound : s.Sound
  vacant : s.catalog.Vacant
  blocks : ∀ k ∈ s.blocks, k.wasRegistered = true → s.catalog.path k.entity ≠ ""

/-- **A step that registers nothing under the empty path itself leaves it vacant.** -/
theorem NamedStep.unclaimed (hs : s.Unclaimed) (h : NamedStep s s') : s'.Unclaimed := by
  have hw := h.step.writes hs.sound
  -- an entity whose path is not empty has a path for good
  have hlater : ∀ k ∈ s.blocks, k.wasRegistered = true → s'.catalog.path k.entity ≠ "" := by
    intro k hk hwas
    have hset := hw.later.settled (hs.sound.blocks k hk).1
    exact mt (Entity.path_eq_empty_iff_of_settled hset).1 (hs.blocks k hk hwas)
  have hsound := h.step.sound hs.sound
  cases h with
  | act op h hn => exact ⟨hsound, op.vacant h hn hs.vacant, hlater⟩
  | @enter r e hr hk =>
      refine ⟨hsound, hs.vacant.openRekey r e, fun k hmem => ?_⟩
      rcases List.mem_cons.1 hmem with rfl | hmem
      · intro hwas
        have hp := hs.vacant.path_ne_empty hwas
        rwa [path, entity_openRekey]
      · exact hlater k hmem
  | @leave k ks h =>
      refine ⟨hsound, hs.vacant.closeRekey (hs.blocks k (by simp [h])), fun k' hmem => ?_⟩
      exact hlater k' (by simp [h, hmem])

theorem NamedSteps.unclaimed (h : NamedSteps {} s) : s.Unclaimed := by
  induction h with
  | refl => exact ⟨sound_empty, fun _ => rfl, fun _ h => by cases h⟩
  | tail _ h ih => exact h.unclaimed ih

/-- **In every session that can be come to, what is registered is found at its own path exactly when
the path is not empty, or it is the root.**  Only roots, and entities without a name at the top
level, are ever held under the empty path, and only after they were registered there themselves. -/
theorem found_at_own_path (h : s.Reachable) :
    (∀ r e, s.catalog.isRegistered r e = true →
      let found := s.catalog.path e ≠ "" ∨ s.catalog.root r = e
      (s.catalog.lookup? r (s.catalog.path e) = some e ↔ found) ∧
      (s.catalog.entityAt r (.text (s.catalog.path e)) = .ok e ↔ found)) ∧
    (∀ r e, (s.catalog.entries r).get? "" = some e → (s.catalog.entity e).kind = .root ∨
      ((s.catalog.entity e).kind ≠ .method ∧ (s.catalog.entity e).name = "" ∧
        (s.catalog.entity e).ownerPath = "")) ∧
    (NamedSteps {} s → ∀ r, (s.catalog.entries r).get? "" = none ∧
      ∀ e, s.catalog.isRegistered r e = true →
        s.catalog.lookup? r (s.catalog.path e) = some e ∧
        s.catalog.entityAt r (.text (s.catalog.path e)) = .ok e) := by
  have hlookup : ∀ r e, s.catalog.isRegistered r e = true →
      (s.catalog.lookup? r (s.catalog.path e) = some e ↔
        s.catalog.path e ≠ "" ∨ s.catalog.root r = e) := by
    intro r e hreg
    have hget : (s.catalog.entries r).get? (s.catalog.path e) = some e := by
      simpa [isRegistered] using hreg
    by_cases hp : s.catalog.path e = ""
    · simp [lookup?, hp]
    · simp [lookup?, hp, hget]
  refine ⟨fun r e hreg => ?_, ?_, ?_⟩
  · exact ⟨hlookup r e hreg, entityAt_text_eq_ok_iff.trans (hlookup r e hreg)⟩
  · intro r e hget
    exact (s.catalog.entity e).path_eq_empty_iff.1 ((Reachable.sound h).keysHold.path_eq hget)
  · intro hnamed r
    have hv := hnamed.unclaimed.vacant
    refine ⟨hv r, fun e hreg => ?_⟩
    have hfound := (hlookup r e hreg).2 (.inl fun hp => ?_)
    · exact ⟨hfound, entityAt_text_eq_ok_iff.2 hfound⟩
    · have hget : (s.catalog.entries r).get? (s.catalog.path e) = some e := by
        simpa [isRegistered] using hreg
      rw [hp, hv r] at hget
      cases hget

/-- A namespace that is registered under its name, by steps that leave the empty path vacant. -/
theorem found_at_own_path_named :
    let r : Registry := ⟨0, {}⟩
    let act (s : Session) (op : Operation) : Session :=
      { s with catalog := (op.action s.catalog).2 }
    let s₁ := act {} (.openRegistry {})
    let s₂ := act s₁ (.makeSpace { owner? := some ⟨0⟩, name := .text "Shop" })
    let s₃ := act s₂ (.register r ⟨1⟩)
    NamedSteps {} s₃ ∧ s₃.catalog.isRegistered r ⟨1⟩ = true ∧
      s₃.catalog.lookup? r (s₃.catalog.path ⟨1⟩) = some ⟨1⟩ ∧
      s₃.catalog.entityAt r (.text (s₃.catalog.path ⟨1⟩)) = .ok ⟨1⟩ := by
  intro r act s₁ s₂ s₃
  have howner : s₁.catalog.Knows ⟨0⟩ ∧ (s₁.catalog.entity ⟨0⟩).isSpace = true := by decide +kernel
  have ho : s₂.catalog.Opened r := ⟨by decide +kernel, by decide +kernel, by decide +kernel⟩
  have h₁ : NamedSteps {} s₁ := .single (.act (.openRegistry {}) trivial trivial)
  have h₂ : NamedSteps {} s₂ :=
    .tail h₁ (.act _ ⟨fun n h => by cases h; exact howner, fun _ h => by cases h⟩ trivial)
  have hname : s₂.catalog.path ⟨1⟩ ≠ "" := by decide +kernel
  have h₃ : NamedSteps {} s₃ :=
    .tail h₂ (.act (.register r ⟨1⟩) ⟨ho, by decide +kernel⟩ hname)
  have hreg : s₃.catalog.isRegistered r ⟨1⟩ = true := by decide +kernel
  exact ⟨h₃, hreg, ((found_at_own_path (Reachable.of_named h₃)).2.2 h₃ r).2 ⟨1⟩ hreg⟩

/-- A namespace without a name at the top level is held under the empty path, and whoever looks
there finds the root. -/
theorem nameless_found_as_root :
    let r : Registry := ⟨0, {}⟩
    let act (s : Session) (op : Operation) : Session :=
      { s with catalog := (op.action s.catalog).2 }
    let s₁ := act {} (.openRegistry {})
    let s₂ := act s₁ (.makeSpace { owner? := some ⟨0⟩, name := .text "" })
    let s₃ := act s₂ (.register r ⟨1⟩)
    s₃.Reachable ∧ (s₃.catalog.entries r).get? "" = some ⟨1⟩ ∧
      s₃.catalog.isRegistered r ⟨1⟩ = true ∧
      s₃.catalog.lookup? r (s₃.catalog.path ⟨1⟩) ≠ some ⟨1⟩ ∧
      s₃.catalog.entityAt r (.text (s₃.catalog.path ⟨1⟩)) ≠ .ok ⟨1⟩ := by
  intro r act s₁ s₂ s₃
  have howner : s₁.catalog.Knows ⟨0⟩ ∧ (s₁.catalog.entity ⟨0⟩).isSpace = true := by decide +kernel
  have ho : s₂.catalog.Opened r := ⟨by decide +kernel, by decide +kernel, by decide +kernel⟩
  have h₁ : s₁.Reachable := .single (.act (.openRegistry {}) trivial)
  have h₂ : s₂.Reachable :=
    .tail h₁ (.act _ ⟨fun n h => by cases h; exact howner, fun _ h => by cases h⟩)
  have h₃ : s₃.Reachable := .tail h₂ (.act (.register r ⟨1⟩) ⟨ho, by decide +kernel⟩)
  have hlost : s₃.catalog.lookup? r (s₃.catalog.path ⟨1⟩) ≠ some ⟨1⟩ := by decide +kernel
  exact ⟨h₃, by decide +kernel, by decide +kernel, hlost, mt entityAt_text_eq_ok_iff.1 hlost⟩

end Session

end DocCatalog
