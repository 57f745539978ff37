/-
**A call that is refused leaves a catalog as it was.**

What producers and readers call on entities and registries checks what it is given before it writes
anything, so a call that fails is as good as one that was never made.  One call writes before its
last check: an attribute is written into a table that is brought back first if it was dropped, and a
name that can be no key is noticed only then.  A table that was not dropped is brought back as it
is, so what remains of such a call is at most an empty table in the place of one that was dropped.

Main definitions:

* `Action.IsAtomic`: a step that changes nothing if it fails;
* `Call`: what is called on entities and registries, `Call.action` the step that does it.

Main results:

* `Catalog.addAttribute_eq_error`: what remains of an attribute that is refused;
* `Catalog.gains_of_make`: what a new entity changes: one slot of its owner;
* `Call.refused_or_made`: **a call that is refused changes nothing but for such a table, and making
  an entity changes nothing but a slot of its owner**.
-/

import DocCatalog.Proofs.Catalog.Ending
import DocCatalog.Proofs.Catalog.Ledger
import DocCatalog.Proofs.Catalog.Session

set_option autoImplicit false

namespace DocCatalog

open Catalog

/-! ### Steps that change nothing if they fail -/

namespace Action

variable {α β : Type} {a : Action α} {c c' : Catalog}

/-- A step that changes nothing if it fails. -/
def IsAtomic (a : Action α) : Prop := ∀ c fault c', a c = (.error fault, c') → c' = c

namespace IsAtomic

theorem throw (fault : Fault) : (MonadExcept.throw fault : Action α).IsAtomic := by
  intro c fault' c' h
  cases h
  rfl

theorem pure (x : α) : (Pure.pure x : Action α).IsAtomic := by
  intro c fault c' h
  cases h

theorem set (c₁ : Catalog) : (MonadState.set c₁ : Action Unit).IsAtomic := by
  intro c fault c' h
  cases h

theorem get {f : Catalog → Action α} (hf : ∀ c, (f c).IsAtomic) :
    (MonadState.get >>= f).IsAtomic := fun c => hf c c

theorem change (f : Catalog → Catalog) : (Action.change f).IsAtomic := by
  intro c fault c' h
  cases h

/-- Reading plain data of a catalog changes nothing. -/
theorem reading (f : Catalog → Except Fault α) :
    (do let c ← MonadState.get; liftM (f c) : Action α).IsAtomic := by
  intro c fault c' h
  exact (Prod.mk.inj (show (f c, c) = (.error fault, c') from h)).2.symm

end IsAtomic

end Action

namespace Catalog

open DocCatalog.Action (IsAtomic)

variable {c c' : Catalog} {e n : EntityId} {o : Origin} {kind : EntityKind}
  {form : Registry → Form} {fault : Fault}

theorem isAtomic_make (kind : EntityKind) (form : Registry → Form) (o : Origin) :
    (make kind form o).IsAtomic := by
  intro c fault c' h
  cases hh : c.homeOf? o with
  | none =>
      rw [make_of_homeless hh] at h
      cases h
      rfl
  | some home =>
      rw [make_of_homeOf? hh] at h
      cases h

theorem isAtomic_makeMethod (o : Origin) (scope : Value) : (makeMethod o scope).IsAtomic := by
  unfold makeMethod
  split
  · exact .throw _
  · exact isAtomic_make _ _ o

theorem isAtomic_register (r : Registry) (e : EntityId) : (register r e).IsAtomic := by
  refine .get fun c => ?_
  split
  · exact .set _
  · exact .throw _

theorem isAtomic_setScope (e : EntityId) (v : Value) : (setScope e v).IsAtomic := by
  unfold setScope
  split
  · exact .throw _
  · refine .get fun c => ?_
    split
    · exact .pure ()
    · exact .set _

theorem isAtomic_setVisibility (e : EntityId) (v : Value) : (setVisibility e v).IsAtomic := by
  unfold setVisibility
  split
  · exact .throw _
  · exact .change _

theorem isAtomic_setParameters (e : EntityId) (v : Value) : (setParameters e v).IsAtomic := by
  unfold setParameters
  split
  · exact .throw _
  · exact .change _

/-! ### Attributes that are refused -/

/-- A change of tables that leaves those of a namespace as they are changes nothing. -/
theorem updateTables_eq_self {f : Tables → Tables} (h : f (c.tables n) = c.tables n) :
    c.updateTables n f = c := by
  have hmodify : c.entities.modify n.index (fun x => x.updateTables f) = c.entities := by
    refine Array.ext (by simp) fun i hi hi' => ?_
    rw [Array.getElem_modify]
    split
    · next hn =>
        have hx : c.entity n = c.entities[i] := by simp [entity, hn, hi']
        cases hform : c.entities[i].form with
        | space isRoot t =>
            have ht : c.tables n = t := by simp [tables, hx, Entity.tables?, hform]
            rw [ht] at h
            rw [Entity.updateTables, hform]
            simp only [h, ← hform]
        | _ => simp [Entity.updateTables, hform]
    · rfl
  rw [updateTables, update, hmodify]

theorem setAttributes_eq_self {t : Tables} {side : Scope} {a : AttributeTable}
    (h : t.attributes? side = some a) : t.setAttributes side (some a) = t := by
  cases side <;> cases t <;> cases h <;> rfl

/-- **What remains of an attribute that is refused** is nothing, or an empty table in the place of
one that was dropped. -/
theorem addAttribute_eq_error {scope name : Value} {read write : Option EntityId}
    (h : addAttribute n scope name read write c = (.error fault, c')) :
    c' = c ∨ ∃ side, Scope.ofValue? scope = some side ∧ name.unhashableKind?.isSome = true ∧
      (c.tables n).attributes? side = none ∧
      c' = c.updateTables n fun t => t.setAttributes side (some ∅) := by
  have hends : (addAttribute n scope name read write).Ends c (fun _ _ => True) fun _ c' =>
      c' = c ∨ ∃ side, Scope.ofValue? scope = some side ∧ name.unhashableKind?.isSome = true ∧
        (c.tables n).attributes? side = none ∧
        c' = c.updateTables n fun t => t.setAttributes side (some ∅) := by
    unfold addAttribute
    split
    · exact .throw (.inl rfl)
    · next side hside =>
        refine .get (.bind (Q := fun _ c₁ => c₁ = c.updateTables n fun t =>
          t.setAttributes side (some (((c.tables n).attributes? side).getD ∅))) (.change rfl) ?_)
        rintro _ c₁ rfl
        split
        · next unhashable hname =>
            refine .throw ?_
            cases hat : (c.tables n).attributes? side with
            | none => exact .inr ⟨side, hside, by rw [hname]; rfl, hat, rfl⟩
            | some table => exact .inl (updateTables_eq_self (setAttributes_eq_self hat))
        · exact .bind (Q := fun _ _ => True) (.change trivial) fun _ _ _ => .pure trivial
  exact (Action.ends_iff.1 hends).2 _ _ h

/-! ### What a new entity changes -/

/-- What making an entity changes: one slot of its owner, and nothing else of what was there. -/
structure Gains (c : Catalog) (o : Origin) (e : EntityId) (c' : Catalog) : Prop where
  fresh : ¬ c.Knows e
  knows : c'.Knows e
  owner : (c'.entity e).owner? = o.owner?
  /-- Every registry holds what it held, and has the root that it had. -/
  stock : c'.stock = c.stock
  bare : ∀ e', c.Knows e' → (c'.entity e').bare = (c.entity e').bare
  ledger : ∀ n, c'.ledger n = c.ledger n
  slots : ∀ n k, (c'.slots n).get? k =
    if o.owner? = some n ∧ (c'.entity e).memberKey = k then some e else (c.slots n).get? k

theorem gains_of_make (ho : o.Known c) (hs : ∀ home, (c.newEntity o home form).slots = ∅)
    (hl : ∀ (c : Catalog) home, (c.newEntity o home form).ledger = {})
    (h : make kind form o c = (.ok e, c')) : Gains c o e c' := by
  have hquiet : Quiet c c' := (quiet_make hl).of_run h
  cases hh : c.homeOf? o with
  | none =>
      rw [make_of_homeless hh] at h
      cases h
  | some home =>
      rw [make_of_homeOf? hh] at h
      cases h
      have hfresh : ¬ c.Knows ⟨c.entities.size⟩ := Nat.lt_irrefl _
      have hnew : (c.add (c.newEntity o home form)).2.entity ⟨c.entities.size⟩ =
          c.newEntity o home form := by rw [entity_add, if_pos rfl]
      have howner := c.owner?_newEntity o home form
      have hspace : ∀ n, (c.newEntity o home form).owner? = some n →
          ((c.add (c.newEntity o home form)).2.entity n).isSpace = true := by
        intro n hn
        obtain ⟨hk, hspace⟩ := ho.owner n (howner ▸ hn)
        rw [entity_add_of_knows _ hk, hspace]
      have hbare : ∀ e', (((c.add (c.newEntity o home form)).2.adoptByOwner
          ⟨c.entities.size⟩).entity e').bare =
            ((c.add (c.newEntity o home form)).2.entity e').bare := fun e' => by simp
      have hidentity := Entity.identity_eq_of_bare (hbare ⟨c.entities.size⟩)
      rw [hnew] at hidentity
      constructor
      · exact hfresh
      · simp [Knows, add]
      · rw [Entity.owner?_eq_of_settled (Entity.settled_eq_of_identity hidentity), howner]
      · rw [stock_adoptByOwner]
        rfl
      · intro e' hk
        rw [hbare, entity_add_of_knows _ hk]
      · exact hquiet.ledger
      · intro n k
        have hslots : (c.add (c.newEntity o home form)).2.slots n = c.slots n := by
          rw [slots, slots, entity_add]
          split
          · next hn =>
              have hn : (c.entity n).isSpace = false := by
                rw [entity, Array.getElem?_eq_none (Nat.le_of_eq hn.symm)]
                rfl
              rw [hs, Entity.slots_eq_empty hn]
          · rfl
        rw [get?_slots_adoptByOwner _ n k (by rwa [hnew]), hnew, howner, hslots,
          Entity.memberKey_eq_of_identity hidentity]

theorem gains_of_makeMethod {scope : Value} (ho : o.Known c)
    (h : makeMethod o scope c = (.ok e, c')) : Gains c o e c' := by
  cases hscope : Scope.ofValue? scope with
  | none =>
      rw [makeMethod, hscope] at h
      cases h
  | some side =>
      rw [makeMethod, hscope] at h
      exact gains_of_make ho (fun _ => rfl) (fun _ _ => rfl) h

end Catalog

/-! ### Calls -/

/-- What is called on entities and registries, with whatever it is given. -/
inductive Call where
  | makeEntry (o : Origin)
  | makeSpace (o : Origin)
  | makeMethod (o : Origin) (scope : Value)
  | register (r : Registry) (e : EntityId)
  | setScope (e : EntityId) (scope : Value)
  | setVisibility (e : EntityId) (visibility : Value)
  | setParameters (e : EntityId) (parameters : Value)
  | addAttribute (n : EntityId) (scope name : Value) (read write : Option EntityId)
  | methods (n : EntityId) (scope visibility : Value)
  | child (n : EntityId) (name scope : Value)

namespace Call

/-- The step that a call is; its answer does not matter here. -/
def action : Call → Action Unit
  | makeEntry o => do let _ ← Catalog.makeEntry o
  | makeSpace o => do let _ ← Catalog.makeSpace o
  | makeMethod o scope => do let _ ← Catalog.makeMethod o scope
  | register r e => Catalog.register r e
  | setScope e scope => Catalog.setScope e scope
  | setVisibility e visibility => Catalog.setVisibility e visibility
  | setParameters e parameters => Catalog.setParameters e parameters
  | addAttribute n scope name read write => do
      let _ ← Catalog.addAttribute n scope name read write
  | methods n scope visibility => do let _ ← (do (← get).methods n scope visibility : Action _)
  | child n name scope => do let _ ← (do (← get).child n name scope : Action _)

/-- What a call makes an entity of, if it makes one. -/
def origin? : Call → Option Origin
  | makeEntry o => some o
  | makeSpace o => some o
  | makeMethod o _ => some o
  | _ => none

variable {α : Type} {c c' : Catalog} {a : Action α}

/-- A call fails as the step does whose answer it drops. -/
theorem eq_error_of_dropped {fault : Fault}
    (h : (do let _ ← a : Action Unit) c = (.error fault, c')) : a c = (.error fault, c') := by
  have hrun := Action.bind_run a (fun _ => pure ()) c
  rw [show (a >>= fun _ => pure ()) c = (.error fault, c') from h] at hrun
  rcases hac : a c with ⟨fault' | x, c₁⟩ <;> rw [hac] at hrun <;> cases hrun
  rfl

/-- A call succeeds only if the step does whose answer it drops. -/
theorem eq_ok_of_dropped (h : (do let _ ← a : Action Unit) c = (.ok (), c')) :
    ∃ x, a c = (.ok x, c') := by
  obtain ⟨x, c₁, ha, hpure⟩ := Action.bind_eq_ok h
  cases hpure
  exact ⟨x, ha⟩

/-- **A call that is refused leaves the catalog as it was**, unless it is to write an attribute
under a name that can be no key into a table that was dropped: then an empty table is there again.
**A call that makes an entity changes nothing but one slot of its owner.**  Both hold in any
catalog, and so in all that can be come to. -/
theorem refused_or_made (c : Catalog) (call : Call) :
    (∀ fault c', call.action c = (.error fault, c') →
      c' = c ∨ ∃ n scope name read write side,
        call = .addAttribute n scope name read write ∧ Scope.ofValue? scope = some side ∧
        name.unhashableKind?.isSome = true ∧ (c.tables n).attributes? side = none ∧
        c' = c.updateTables n fun t => t.setAttributes side (some ∅)) ∧
    ∀ o, call.origin? = some o → o.Known c →
      ∀ c', call.action c = (.ok (), c') → ∃ e, Gains c o e c' := by
  constructor
  · intro fault c' h
    cases call with
    | makeEntry o => exact .inl (isAtomic_make _ _ o c _ _ (eq_error_of_dropped h))
    | makeSpace o => exact .inl (isAtomic_make _ _ o c _ _ (eq_error_of_dropped h))
    | makeMethod o scope => exact .inl (isAtomic_makeMethod o scope c _ _ (eq_error_of_dropped h))
    | register r e => exact .inl (isAtomic_register r e c _ _ h)
    | setScope e scope => exact .inl (isAtomic_setScope e scope c _ _ h)
    | setVisibility e visibility => exact .inl (isAtomic_setVisibility e visibility c _ _ h)
    | setParameters e parameters => exact .inl (isAtomic_setParameters e parameters c _ _ h)
    | addAttribute n scope name read write =>
        rcases addAttribute_eq_error (eq_error_of_dropped h) with rfl | ⟨side, hremains⟩
        · exact .inl rfl
        · exact .inr ⟨n, scope, name, read, write, side, rfl, hremains⟩
    | methods n scope visibility =>
        exact .inl (Action.IsAtomic.reading _ c _ _ (eq_error_of_dropped h))
    | child n name scope =>
        exact .inl (Action.IsAtomic.reading _ c _ _ (eq_error_of_dropped h))
  · intro o horigin ho c' h
    cases call with
    | makeEntry o' =>
        obtain rfl := Option.some.inj horigin
        obtain ⟨e, hmade⟩ := eq_ok_of_dropped h
        exact ⟨e, gains_of_make ho (fun _ => rfl) (fun _ _ => rfl) hmade⟩
    | makeSpace o' =>
        obtain rfl := Option.some.inj horigin
        obtain ⟨e, hmade⟩ := eq_ok_of_dropped h
        exact ⟨e, gains_of_make ho (fun _ => rfl) (fun _ _ => rfl) hmade⟩
    | makeMethod o' scope =>
        obtain rfl := Option.some.inj horigin
        obtain ⟨e, hmade⟩ := eq_ok_of_dropped h
        exact ⟨e, gains_of_makeMethod ho hmade⟩
    | _ => cases horigin

/-- A method whose scope is misspelt is not made, and one whose scope is right is. -/
theorem refused_or_made_below_root :
    let c := (({} : Catalog).openRegistry {}).2
    let o : Origin := { owner? := some ⟨0⟩, name := .text "run" }
    o.Known c ∧ (∃ fault, (makeMethod o (.text "clas")).action c = (.error fault, c)) ∧
      ∃ c' e, (makeMethod o (.text "class")).action c = (.ok (), c') ∧ Gains c o e c' := by
  intro c o
  have hknown : o.Known c := by
    constructor
    · intro n hn
      cases hn
      decide +kernel
    · intro r hr
      cases hr
  refine ⟨hknown, ?_, ?_⟩
  · have hfails : ((makeMethod o (.text "clas")).action c).1.toBool = false := by decide +kernel
    rcases hrun : (makeMethod o (.text "clas")).action c with ⟨fault | _, c'⟩
    · rcases (refused_or_made c _).1 fault c' hrun with rfl | ⟨_, _, _, _, _, _, hcall, -⟩
      · exact ⟨fault, rfl⟩
      · cases hcall
    · rw [hrun] at hfails
      cases hfails
  · have hok : ((makeMethod o (.text "class")).action c).1.toBool = true := by decide +kernel
    obtain ⟨_, hrun⟩ := Action.exists_eq_ok hok
    obtain ⟨e, hgains⟩ := (refused_or_made c _).2 o rfl hknown _ hrun
    exact ⟨_, e, hrun, hgains⟩

/-- An attribute of a namespace that has dropped its table for the class, under a list for a name,
is refused, and the table is there again. -/
theorem dropped_table_is_back :
    let r : Registry := ⟨0, {}⟩
    let act (s : Session) (op : Operation) : Session :=
      { s with catalog := (op.action s.catalog).2 }
    let s₁ := act {} (.openRegistry r.config)
    let s₂ := act s₁ (.makeSpace { owner? := some ⟨0⟩, name := .text "Shop" })
    let s := act s₂ (.dropAttributes ⟨1⟩ .onClass)
    let c' := ((addAttribute ⟨1⟩ (.text "class") (.list []) none none).action s.catalog).2
    s.Reachable ∧
      (∃ fault, (addAttribute ⟨1⟩ (.text "class") (.list []) none none).action s.catalog =
        (.error fault, c')) ∧
      (s.catalog.tables ⟨1⟩).attributes? .onClass = none ∧
      (c'.tables ⟨1⟩).attributes? .onClass = some ∅ := by
  intro r act s₁ s₂ s c'
  have howner : s₁.catalog.Knows ⟨0⟩ ∧ (s₁.catalog.entity ⟨0⟩).isSpace = true := by decide +kernel
  have h₁ : s₁.Reachable := .single (.act (.openRegistry r.config) trivial)
  have h₂ : s₂.Reachable :=
    .tail h₁ (.act _ ⟨fun n h => by cases h; exact howner, fun _ h => by cases h⟩)
  refine ⟨.tail h₂ (.act (.dropAttributes ⟨1⟩ .onClass) trivial), ⟨_, rfl⟩, rfl, rfl⟩

end Call

end DocCatalog
