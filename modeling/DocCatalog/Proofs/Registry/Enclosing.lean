/-
**A change of path around any work.**

A registry takes an entity away when a change of its path begins and puts it back when the change
ends.  What is done in between is anybody's: entities are registered, deleted and given scopes,
the registry is begun again or a manifest is loaded into it, other changes of path begin and end,
and the scope of the entity itself is written, through its registry or past it.  The work may fail
at any point.  Writing a scope past the registry is the one thing that could leave an entity under a
path that is not its own, and does not as long as the registry does not hold the entity.  That is so
all through a change of path, unless the work registers the entity itself.

Main definitions:

* `Catalog.Outside`: an entity that no registry holds;
* `Operation.Spares`: an operation does not itself register an entity;
* `Session.WorkStep`, `Session.Work`: the steps of a session, and scopes written past the registry
  while it does not hold the method;
* `Session.SparingWork`: work that does not itself register one entity, whose scope it may write at
  any point.

Main results:

* `Operation.outside`: an operation that spares an entity leaves it outside;
* `Session.SparingWork.work`: **all through such work the entity is outside**, so that its scope is
  written while no registry holds it;
* `Session.rekey_encloses`: **a change of path neither loses nor doubles its entity**, whatever the
  work inside is and however it ends.
-/

import DocCatalog.Proofs.Registry.AuditTrail
import DocCatalog.Proofs.Registry.EmptyPath

set_option autoImplicit false

namespace DocCatalog

namespace Catalog

variable {c c' : Catalog} {r : Registry} {e x : EntityId}

/-! ### Entities that no registry holds -/

/-- An entity that was given out and that no registry holds under any path. -/
structure Outside (e : EntityId) (c : Catalog) : Prop where
  knows : c.Knows e
  unheld : ∀ r p, (c.entries r).get? p ≠ some e

/-- An entity that is not held at its own path by its own registry is held nowhere. -/
theorem KeysHold.outside (hk : c.KeysHold) (he : c.Knows e)
    (hreg : c.isRegistered (c.entity e).home e = false) : Outside e c := by
  refine ⟨he, fun r p hget => ?_⟩
  rw [hk.isRegistered hget] at hreg
  cases hreg

namespace Outside

theorem isRegistered (h : Outside e c) (r : Registry) : c.isRegistered r e = false :=
  decide_eq_false (h.unheld r _)

theorem of_entries (h : Outside e c) (hk : c'.Knows e)
    (he : ∀ r p, (c'.entries r).get? p = some e → (c.entries r).get? p = some e) : Outside e c' :=
  ⟨hk, fun r p hget => h.unheld r p (he r p hget)⟩

theorem of_stock (h : Outside e c) (hn : c'.entities.size = c.entities.size)
    (hs : c'.stock = c.stock) : Outside e c' := by
  refine h.of_entries ?_ fun r p hget => ?_
  · rw [Knows, hn]
    exact h.knows
  · rwa [entries_congr hs] at hget

theorem update (h : Outside e c) (x : EntityId) (f : Entity → Entity) :
    Outside e (c.update x f) := h.of_stock (c.size_update x f) rfl

theorem put (h : Outside e c) (r : Registry) (hne : x ≠ e) : Outside e (c.put r x) := by
  by_cases hr : r.index < c.stock.size
  · refine h.of_entries h.knows fun r' p hget => ?_
    rw [get?_entries_put c x r' p hr] at hget
    split at hget
    · exact absurd (Option.some.inj hget) hne
    · exact hget
  · refine h.of_stock rfl ?_
    simp [Catalog.put, updateEntries, updateHoldings, Array.modify, Array.modifyM, hr]

theorem take (h : Outside e c) (r : Registry) (p : String) :
    Outside e (c.updateEntries r fun t => t.erase p) := by
  refine h.of_entries h.knows fun r' q hget => ?_
  rw [get?_entries_take] at hget
  split at hget
  · cases hget
  · exact hget

theorem enter (h : Outside e c) (r : Registry) (hne : x ≠ e) : Outside e (c.enter r x) :=
  (h.put r hne).of_stock (size_adoptByOwner _ x) (stock_adoptByOwner _ x)

theorem delete (h : Outside e c) (r : Registry) (x : EntityId) : Outside e (c.delete r x) := by
  simp only [Catalog.delete]
  split
  · exact (h.take r _).of_stock (size_dismissByOwner _ x) (stock_dismissByOwner _ x)
  · exact h

theorem openRekey (h : Outside e c) (r : Registry) (x : EntityId) :
    Outside e (c.openRekey r x).2 := by
  simp only [Catalog.openRekey]
  split
  · exact h.take r _
  · exact h

/-- A change of path that ends puts back no other entity than its own. -/
theorem closeRekey (h : Outside e c) {k : Rekeying}
    (hne : k.wasRegistered = true → k.entity ≠ e) : Outside e (c.closeRekey k) := by
  by_cases hwas : k.wasRegistered = true
  · rw [closeRekey_eq c hwas]
    exact (h.put k.registry (hne hwas)).of_stock rfl rfl
  · rwa [closeRekey_of_not c hwas]

/-- What is outside when a change of its path begins is not put back when the change ends. -/
theorem ne_of_wasRegistered (h : Outside e c) (hwas : (c.openRekey r x).1.wasRegistered = true) :
    x ≠ e := by
  rintro rfl
  rw [show (c.openRekey r x).1.wasRegistered = c.isRegistered r x from rfl,
    h.isRegistered] at hwas
  cases hwas

theorem rescope (h : Outside e c) (x : EntityId) (s : Scope) : Outside e (c.rescope x s) := by
  have hmoved : Outside e (c.rescoped x s) :=
    (h.openRekey (c.entity x).home x).of_stock (by rw [rescoped]; simp)
      (by rw [rescoped, stock_moveInOwner, stock_writeScope])
  rw [rescope_eq]
  exact hmoved.closeRekey h.ne_of_wasRegistered

theorem founded (h : Outside e c) (x : Entity) : Outside e (c.founded x) := by
  refine h.of_entries ?_ fun r p hget => ?_
  · have hk := knows_add x h.knows
    rwa [Catalog.founded, Knows, size_adoptByOwner]
  · rwa [Catalog.founded, entries_congr (stock_adoptByOwner _ _)] at hget

theorem openRegistry (h : Outside e c) (config : Config) :
    Outside e (c.openRegistry config).2 := by
  refine h.of_entries ((later_openRegistry config).knows h.knows) fun r p hget => ?_
  rw [entries_openRegistry] at hget
  split at hget
  · cases hget
  · exact hget

theorem clear (h : Outside e c) (ho : c.Opened r) : Outside e (c.clear r) := by
  refine h.of_entries ((later_clear ho).knows h.knows) fun r' p hget => ?_
  rw [entries_clear r' ho.lt] at hget
  split at hget
  · cases hget
  · exact hget

/-! ### Steps that leave an entity outside -/

open DocCatalog.Action (Ends Keeps)

/-- What is made is another entity. -/
theorem ends_make {kind : EntityKind} {form : Registry → Form} {o : Origin} (h : Outside e c) :
    (make kind form o).Ends c (fun x c' => Outside e c' ∧ x ≠ e) fun _ => Outside e := by
  cases hh : c.homeOf? o with
  | none => exact .of_error (make_of_homeless hh) h
  | some home =>
      refine .of_ok (make_of_homeOf? hh) ⟨h.founded _, ?_⟩
      rintro rfl
      exact Nat.lt_irrefl _ h.knows

theorem ends_makeMethod (h : Outside e c) (o : Origin) (scope : Value) :
    (makeMethod o scope).Ends c (fun x c' => Outside e c' ∧ x ≠ e) fun _ => Outside e := by
  unfold makeMethod
  split
  · exact .throw h
  · exact h.ends_make

theorem ends_register (h : Outside e c) (r : Registry) (hne : x ≠ e) :
    (register r x).Ends c (fun _ => Outside e) fun _ => Outside e := by
  refine .get ?_
  split
  · exact .set (h.enter r hne)
  · exact .throw h

/-- A namespace that is found is left where it is, and one that is made is another entity. -/
theorem ends_ensureNested (h : Outside e c) (r : Registry) (n : EntityId) (name : String) :
    (ensureNested r n name).Ends c (fun _ => Outside e) fun _ => Outside e := by
  refine .get ?_
  split
  · exact .pure h
  · refine .bind h.ends_make ?_
    rintro x c₁ ⟨h₁, hne⟩
    exact .bind (h₁.ends_register r hne) fun _ c₂ h₂ => .pure h₂

/-- All through the loading of a manifest an entity that was outside before stays there. -/
theorem upheld (e : EntityId) (r : Registry) (data : Value) :
    Manifest.Upheld r data (fun _ => Outside e) (fun m c => Outside e c ∧ m ≠ e)
      fun _ => True where
  root h := h
  made_root h := h.1
  retouch ht h := h.of_stock ht.size ht.stock
  made_retouch ht h := ⟨h.1.of_stock ht.size ht.stock, h.2⟩
  nested _ h := (h.ends_ensureNested r _ _).mono (fun _ _ h => h) fun _ _ h => ⟨trivial, h⟩
  make _ h := (h.ends_makeMethod _ _).mono (fun _ _ h => h) fun _ _ h => ⟨trivial, h⟩
  register h := (h.1.ends_register r h.2).mono (fun _ _ h => h) fun _ _ h => ⟨trivial, h⟩
  malformed _ _ := trivial
  scope _ _ := trivial
  visibility _ _ _ := trivial

end Outside

end Catalog

namespace Operation

open Catalog
open DocCatalog.Action (Ends)

variable {c : Catalog} {e : EntityId}

/-- An operation does not itself register an entity. -/
def Spares (e : EntityId) : Operation → Prop
  | register _ x => x ≠ e
  | _ => True

/-- **An operation that spares an entity leaves it outside**, whether it succeeds or fails. -/
theorem outside {op : Operation} (h : op.Granted c) (hop : op.Spares e) (he : Outside e c) :
    Outside e (op.action c).2 := by
  have hdrop : ∀ {α : Type} {a : Action α} {Q : α → Catalog → Prop},
      a.Ends c Q (fun _ => Outside e) → (∀ x c', Q x c' → Outside e c') →
      (do let _ ← a : Action Unit).Ends c (fun _ => Outside e) fun _ => Outside e :=
    fun ha hq => .bind ha fun x c' hx => .pure (hq x c' hx)
  -- a manifest that is refused leaves what holds where it stops
  have hstop : ∀ {α : Type} {a : Action α} {c : Catalog},
      a.Ends c (fun _ => Outside e) (fun _ c' => True ∧ Outside e c') →
        a.Ends c (fun _ => Outside e) fun _ => Outside e :=
    fun ha => ha.mono (fun _ _ he => he) fun _ _ he => he.2
  refine Ends.run ?_
  cases op with
  | openRegistry config => exact .change (he.openRegistry config)
  | clear r => exact .change (he.clear h)
  | makeEntry o => exact hdrop he.ends_make fun _ _ h => h.1
  | makeSpace o => exact hdrop he.ends_make fun _ _ h => h.1
  | makeMethod o scope => exact hdrop (he.ends_makeMethod o scope) fun _ _ h => h.1
  | register r x => exact he.ends_register r hop
  | delete r x => exact .change (he.delete r x)
  | dismiss n x => exact .change (he.of_stock (c.size_dismiss n x) (c.stock_dismiss n x))
  | setScope x scope =>
      refine .of_run (P := Outside e) ?_
      rw [action, setScope_eq]
      split
      · exact he
      · split
        · exact he
        · exact he.rescope x _
  | setVisibility x visibility =>
      show (Catalog.setVisibility x visibility).Ends _ _ _
      unfold Catalog.setVisibility
      split
      · exact .throw he
      · exact .change (he.update x _)
  | setParameters x parameters =>
      show (Catalog.setParameters x parameters).Ends _ _ _
      unfold Catalog.setParameters
      split
      · exact .throw he
      · exact .change (he.update x _)
  | setExplicit x explicit => exact .change (he.update x _)
  | setDocstring x docstring => exact .change (he.update x _)
  | addFile x file line => exact .change (he.update x _)
  | addAttribute n scope name read write =>
      exact hdrop (ends_addAttribute (fun h _ => h.update n _) scope name
        (fun _ _ => trivial) (fun _ _ => trivial) he) fun _ _ h => h
  | dropAttributes n s => exact .change (he.update n _)
  | addAlias n e? name => exact .change (he.update n _)
  | ensureNamespace r path =>
      exact hdrop (hstop ((Outside.upheld e r .null).ends_ensureNamespace he path)) fun _ _ h => h
  | load r data => exact hstop ((Outside.upheld e r data).ends_load he)
  | loadFresh data =>
      refine hdrop (Q := fun _ => Outside e) (.bind
        (Q := fun fields c' => Manifest.sections data = .ok fields ∧ Outside e c')
        (.lift (fun fields hf => ⟨hf, he⟩) fun _ _ => he) ?_) fun _ _ h => h
      rintro fields c₁ ⟨hfields, h₁⟩
      refine .get (.bind (Q := fun _ => Outside e) (.set (h₁.openRegistry {})) fun _ c₂ h₂ => ?_)
      exact .bind (hstop ((Outside.upheld e _ data).ends_loadParts hfields h₂))
        fun _ _ h₃ => .pure h₃

end Operation

namespace Session

open Catalog

variable {s s' : Session} {e : EntityId} {admits : Operation → Prop} {free : EntityId → Prop}

/-! ### Work -/

/-- One step of some work, of which only some operations may be part.  The scope of a method may be
written past its registry while the registry does not hold the method, and that of a free one at any
point. -/
inductive WorkStep (admits : Operation → Prop) (free : EntityId → Prop) (s : Session) :
    Session → Prop where
  /-- An operation is done, or fails on the way and keeps what it did before. -/
  | act (op : Operation) (h : op.Granted s.catalog) (hop : admits op) :
      WorkStep admits free s { s with catalog := (op.action s.catalog).2 }
  /-- A change of path begins, in any registry and for any entity. -/
  | enter {r : Registry} {x : EntityId} (hr : s.catalog.Opened r) (hk : s.catalog.Knows x) :
      WorkStep admits free s
        ⟨(s.catalog.openRekey r x).2, (s.catalog.openRekey r x).1 :: s.blocks⟩
  /-- The innermost change of path ends, because its body is at its end or was stopped. -/
  | leave {k : Rekeying} {ks : List Rekeying} (h : s.blocks = k :: ks) :
      WorkStep admits free s ⟨s.catalog.closeRekey k, ks⟩
  /-- A scope is written, and nothing else. -/
  | assign {x : EntityId} (t : Scope)
      (h : free x ∨ s.catalog.isRegistered (s.catalog.entity x).home x = false) :
      WorkStep admits free s { s with catalog := s.catalog.writeScope x t }

/-- Work of any kind: scopes are written past a registry only while it does not hold the method. -/
abbrev Work : Session → Session → Prop :=
  Relation.ReflTransGen (WorkStep (fun _ => True) fun _ => False)

/-- Work that does not itself register an entity, and writes its scope at any point. -/
abbrev SparingWork (e : EntityId) : Session → Session → Prop :=
  Relation.ReflTransGen (WorkStep (Operation.Spares e) fun x => x = e)

theorem Step.workStep (h : Step s s') : WorkStep (fun _ => True) free s s' := by
  cases h with
  | act op h => exact .act op h trivial
  | enter hr hk => exact .enter hr hk
  | leave h => exact .leave h

/-- Whatever can be come to in a session can be come to by work. -/
theorem Reachable.work (h : s.Reachable) : Work {} s :=
  Relation.ReflTransGen.mono (fun _ _ h => h.workStep) _ _ h

theorem later_writeScope (c : Catalog) (x : EntityId) (t : Scope) : Later c (c.writeScope x t) :=
  .of_same (by simp) (c.settled_writeScope x · t) rfl fun _ => rfl

/-- What was settled stays settled in the course of work. -/
theorem WorkStep.later (hs : s.Sound) (h : WorkStep admits free s s') :
    Later s.catalog s'.catalog := by
  cases h with
  | act op h hop => exact (Step.writes hs (.act op h)).later
  | enter hr hk => exact (Step.writes hs (.enter hr hk)).later
  | leave h => exact (Step.writes hs (.leave h)).later
  | assign t h => exact later_writeScope _ _ t

/-- Work keeps a session sound. -/
theorem WorkStep.sound (hs : s.Sound) (h : WorkStep admits (fun _ => False) s s') : s'.Sound := by
  cases h with
  | act op h hop => exact Step.sound hs (.act op h)
  | enter hr hk => exact Step.sound hs (.enter hr hk)
  | leave h => exact Step.sound hs (.leave h)
  | @assign x t h =>
      have hl := later_writeScope s.catalog x t
      refine ⟨hs.wellFormed.writeScope x t, hs.keysHold.writeScope (h.resolve_left id) t, ?_⟩
      intro k hk
      obtain ⟨he, hh⟩ := hs.blocks k hk
      exact ⟨hl.knows he, fun hwas => by rw [hl.home he, hh hwas]⟩

theorem Work.sound (hs : s.Sound) (h : Work s s') : s'.Sound := by
  induction h with
  | refl => exact hs
  | tail _ h ih => exact h.sound ih

theorem Work.later (hs : s.Sound) (h : Work s s') : Later s.catalog s'.catalog := by
  induction h with
  | refl => exact .refl _
  | tail hw h ih => exact ih.trans (h.later (Work.sound hs hw))

/-! ### Work that spares an entity -/

/-- No registry holds an entity, and no change of path that goes on will put it back. -/
structure LeftOut (e : EntityId) (s : Session) : Prop where
  sound : s.Sound
  outside : Outside e s.catalog
  blocks : ∀ k ∈ s.blocks, k.wasRegistered = true → k.entity ≠ e

/-- **A step of work that spares an entity leaves it out**, and writes its scope while no registry
holds it. -/
theorem WorkStep.leftOut (hs : s.LeftOut e)
    (h : WorkStep (Operation.Spares e) (fun x => x = e) s s') :
    WorkStep (fun _ => True) (fun _ => False) s s' ∧ s'.LeftOut e := by
  cases h with
  | act op h hop =>
      have hstep : WorkStep (fun _ => True) (fun _ => False) s _ := .act op h trivial
      exact ⟨hstep, hstep.sound hs.sound, op.outside h hop hs.outside, hs.blocks⟩
  | @enter r x hr hk =>
      have hstep : WorkStep (fun _ => True) (fun _ => False) s _ := .enter hr hk
      refine ⟨hstep, hstep.sound hs.sound, hs.outside.openRekey r x, fun k hmem => ?_⟩
      rcases List.mem_cons.1 hmem with rfl | hmem
      · exact hs.outside.ne_of_wasRegistered
      · exact hs.blocks k hmem
  | @leave k ks h =>
      have hstep : WorkStep (fun _ => True) (fun _ => False) s _ := .leave h
      exact ⟨hstep, hstep.sound hs.sound, hs.outside.closeRekey (hs.blocks k (by simp [h])),
        fun k' hmem => hs.blocks k' (by simp [h, hmem])⟩
  | @assign x t h =>
      have hreg : s.catalog.isRegistered (s.catalog.entity x).home x = false := by
        rcases h with rfl | hreg
        · exact hs.outside.isRegistered _
        · exact hreg
      have hstep : WorkStep (fun _ => True) (fun _ => False) s _ := .assign t (.inr hreg)
      exact ⟨hstep, hstep.sound hs.sound, hs.outside.update x _, hs.blocks⟩

/-- **All through work that spares an entity the entity is outside**, and the work is of the kind in
which scopes are written only while no registry holds the method. -/
theorem SparingWork.work (hs : s.LeftOut e) (h : SparingWork e s s') : Work s s' ∧ s'.LeftOut e := by
  induction h with
  | refl => exact ⟨.refl, hs⟩
  | tail _ h ih =>
      obtain ⟨hstep, hleft⟩ := h.leftOut ih.2
      exact ⟨ih.1.tail hstep, hleft⟩

/-! ### Changes of path -/

/-- When a change of path begins, no registry holds the entity. -/
theorem leftOut_openRekey {c : Catalog} (hc : c.WellFormed) (hkeys : c.KeysHold) (he : c.Knows e) :
    LeftOut e ⟨(c.openRekey (c.entity e).home e).2, []⟩ := by
  have hw := c.writes_openRekey (c.entity e).home e
  have hc' := hw.wellFormed hc
  have hkeys' := hw.keysHold hc hkeys
  refine ⟨⟨hc', hkeys', fun k hk => nomatch hk⟩, hkeys'.outside (hw.later.knows he) ?_,
    fun k hk => nomatch hk⟩
  rw [entity_openRekey]
  exact c.isRegistered_openRekey _ e

/-- **A change of path neither loses nor doubles its entity.**  Whatever the body answers or fails
with comes out of the change of path.  When the body begins, no registry holds the entity, and
nothing else can come about in a body that does not itself register it; so such a body may write its
scope past the registry as it likes.  After the change of path every registry holds its own entities
under their own paths; the entity, if it was registered before, is held under the path that it then
has and under no other, and if it was not and the body did not register it, it is held nowhere. -/
theorem rekey_encloses {α : Type} (h : Work {} s) (he : s.catalog.Knows e) (body : Action α) :
    let c := s.catalog
    let r := (c.entity e).home
    let begun := (c.openRekey r e).2
    let worked := (body begun).2
    let after := (rekey r e body c).2
    (rekey r e body c).1 = (body begun).1 ∧
    (∀ r' p, (begun.entries r').get? p ≠ some e) ∧
    (∀ s', SparingWork e ⟨begun, []⟩ s' →
      Work ⟨begun, []⟩ s' ∧ ∀ r' p, (s'.catalog.entries r').get? p ≠ some e) ∧
    (Work ⟨begun, []⟩ ⟨worked, []⟩ → after.Opened r ∧ after.Keyed ∧
      (c.isRegistered r e = true →
        ∀ p, (after.entries r).get? p = some e ↔ p = after.path e)) ∧
    (SparingWork e ⟨begun, []⟩ ⟨worked, []⟩ → c.isRegistered r e = false →
      ∀ r' p, (after.entries r').get? p ≠ some e) := by
  intro c r begun worked after
  have hsound := Work.sound sound_empty h
  have hleft : LeftOut e ⟨begun, []⟩ := leftOut_openRekey hsound.wellFormed hsound.keysHold he
  refine ⟨rfl, hleft.outside.unheld, fun s' hwork => ?_, fun hwork => ?_, fun hwork hreg => ?_⟩
  · obtain ⟨hwork, hleft'⟩ := SparingWork.work hleft hwork
    exact ⟨hwork, hleft'.outside.unheld⟩
  · have hworked : Sound ⟨worked, []⟩ := Work.sound hleft.sound hwork
    have hlater : Later begun worked := Work.later hleft.sound hwork
    have hk : worked.Knows e := hlater.knows hleft.outside.knows
    have hh : (worked.entity e).home = r := by
      rw [hlater.home hleft.outside.knows, entity_openRekey]
    have hw : Writes worked after := writes_closeRekey hk fun _ => hh
    have hwell := hw.wellFormed hworked.wellFormed
    have hkeys := hw.keysHold hworked.wellFormed hworked.keysHold
    have hopened : after.Opened r := hh ▸ hw.later.opened (hworked.wellFormed.opened_home hk)
    refine ⟨hopened, hkeys.keyed hwell, fun hreg p => ⟨fun hget => (hkeys.path_eq hget).symm, ?_⟩⟩
    rintro rfl
    have hlt : r.index < worked.stock.size := hh ▸ (hworked.wellFormed.opened_home hk).lt
    have hended : after = (worked.put r e).note r (.rekeyed (c.path e) (worked.path e)) :=
      closeRekey_eq worked (k := (c.openRekey r e).1) hreg
    have hpath : after.path e = worked.path e := by rw [hended]; rfl
    rw [hpath, hended, entries_note, get?_entries_put worked e r _ hlt, if_pos ⟨rfl, rfl⟩]
  · have hended : after = worked := by
      refine closeRekey_of_not worked (k := (c.openRekey r e).1) ?_
      show ¬ c.isRegistered r e = true
      simp [hreg]
    rw [hended]
    exact (SparingWork.work hleft hwork).2.outside.unheld

/-- The scope of a method is written past its registry, another method takes the path that comes of
it, and then the work fails. -/
theorem rekey_encloses_failure :
    let r : Registry := ⟨0, {}⟩
    let act (s : Session) (op : Operation) : Session :=
      { s with catalog := (op.action s.catalog).2 }
    let run : Origin := { owner? := some ⟨0⟩, name := .text "run" }
    let s₁ := act {} (.openRegistry {})
    let s₂ := act s₁ (.makeMethod run (.text "class"))
    let s₃ := act s₂ (.makeMethod run (.text "instance"))
    let s₄ := act s₃ (.register r ⟨1⟩)
    let body : Action Unit := fun c =>
      (.error (.interrupted "stop"), (register r ⟨2⟩ (c.writeScope ⟨1⟩ .onInstance)).2)
    let after := (rekey r ⟨1⟩ body s₄.catalog).2
    Work {} s₄ ∧ s₄.catalog.Knows ⟨1⟩ ∧ s₄.catalog.paths r = ["::run"] ∧
      (rekey r ⟨1⟩ body s₄.catalog).1 = .error (.interrupted "stop") ∧
      after.path ⟨1⟩ = "#run" ∧ after.Keyed ∧
      ∀ p, (after.entries r).get? p = some ⟨1⟩ ↔ p = after.path ⟨1⟩ := by
  intro r act run s₁ s₂ s₃ s₄ body after
  have hroot : ∀ {c : Catalog}, c.Knows ⟨0⟩ ∧ (c.entity ⟨0⟩).isSpace = true → run.Known c :=
    fun hc => ⟨fun n h => by cases h; exact hc, fun _ h => by cases h⟩
  have ho₃ : s₃.catalog.Opened r := ⟨by decide +kernel, by decide +kernel, by decide +kernel⟩
  have h₁ : s₁.Reachable := .single (.act (.openRegistry {}) trivial)
  have h₂ : s₂.Reachable := .tail h₁ (.act (.makeMethod run _) (hroot (by decide +kernel)))
  have h₃ : s₃.Reachable := .tail h₂ (.act (.makeMethod run _) (hroot (by decide +kernel)))
  have h₄ : s₄.Reachable := .tail h₃ (.act (.register r ⟨1⟩) ⟨ho₃, by decide +kernel⟩)
  have hk : s₄.catalog.Knows ⟨1⟩ := by decide +kernel
  have hreg : s₄.catalog.isRegistered r ⟨1⟩ = true := by decide +kernel
  have hhome : (s₄.catalog.entity ⟨1⟩).home = r := by decide +kernel
  have hwork : ∀ c : Catalog, (Operation.register r ⟨2⟩).Granted (c.writeScope ⟨1⟩ .onInstance) →
      SparingWork ⟨1⟩ ⟨c, []⟩ ⟨(body c).2, []⟩ := fun c hgranted =>
    .tail (.single (.assign .onInstance (.inl rfl)))
      (.act (.register r ⟨2⟩) hgranted fun h => by cases h)
  have hopened : ((s₄.catalog.openRekey r ⟨1⟩).2.writeScope ⟨1⟩ .onInstance).Opened r :=
    ⟨by decide +kernel, by decide +kernel, by decide +kernel⟩
  obtain ⟨hresult, -, hguarded, hkept, -⟩ := rekey_encloses h₄.work hk body
  rw [hhome] at hresult hguarded hkept
  obtain ⟨-, hkeyed, hheld⟩ := hkept (hguarded _ (hwork _ ⟨hopened, by decide +kernel⟩)).1
  exact ⟨h₄.work, hk, by decide +kernel, hresult, by decide +kernel, hkeyed, hheld hreg⟩

end Session

end DocCatalog
