/-
**What namespaces have written down, and the work that leaves it alone.**

A namespace keeps a member list, which most work changes, and beside it the tables of attributes and
aliases, which only two operations write to.  Making entities, registering them and describing them
writes nothing there, whether it succeeds or fails, and changes no entity in what identifies it.
That is said of every such step without asking what state it is taken in, so that it holds of all
that is composed of such steps.

Main definitions:

* `Tables.ledger`, `Catalog.ledger`: what a namespace has written down, without its members;
* `Catalog.Quiet`: work that writes nothing down and leaves every identity alone;
* `Action.IsQuiet`: a step that is such work in any catalog.

Main results:

* `Action.IsQuiet.bind`, `Action.IsQuiet.foldlM`: the rules of composition;
* `Catalog.quiet_ensureNamespace`, `Manifest.quiet_annotate`, `Manifest.quiet_describe`: **making
  namespaces and describing entities is quiet**.
-/

import DocCatalog.Proofs.Catalog.Leading

set_option autoImplicit false

namespace DocCatalog

/-! ### Ledgers -/

/-- What a namespace has written down, without its members. -/
def Tables.ledger (t : Tables) : Tables := { t with members := ∅ }

@[simp] theorem Tables.aliases_ledger (t : Tables) : t.ledger.aliases = t.aliases := rfl

@[simp] theorem Tables.attributes?_ledger (t : Tables) (s : Scope) :
    t.ledger.attributes? s = t.attributes? s := by cases s <;> rfl

namespace Entity

/-- What an entity has written down; what is no namespace has written nothing. -/
def ledger (x : Entity) : Tables := (x.tables?.getD default).ledger

theorem ledger_eq_empty {x : Entity} (h : x.isSpace = false) : x.ledger = {} := by
  have ht : x.tables? = none := by
    cases hf : x.form with
    | space isRoot t => simp [isSpace, hf] at h
    | _ => simp [tables?, hf]
  rw [ledger, ht]
  rfl

@[simp] theorem ledger_updateMethod (x : Entity) (f : MethodFields → MethodFields) :
    (x.updateMethod f).ledger = x.ledger := by simp [ledger]

/-- Work on the members alone. -/
theorem ledger_updateTables {f : Tables → Tables} (hf : ∀ t, (f t).ledger = t.ledger) (x : Entity) :
    (x.updateTables f).ledger = x.ledger := by
  rw [ledger, ledger, tables?_updateTables]
  cases x.tables? with
  | none => rfl
  | some t => exact hf t

theorem ledger_addFile (x : Entity) (file line : Value) :
    (x.addFile file line).ledger = x.ledger := by
  unfold addFile
  split <;> rfl

end Entity

namespace Catalog

variable {c c' c'' : Catalog} {e n : EntityId} {r : Registry}

/-- What an entity of a catalog has written down. -/
def ledger (c : Catalog) (n : EntityId) : Tables := (c.entity n).ledger

theorem ledger_eq (c : Catalog) (n : EntityId) : c.ledger n = (c.tables n).ledger := rfl

/-- What was not given out has written nothing down. -/
theorem ledger_of_not_knows (h : ¬ c.Knows n) : c.ledger n = {} := by
  rw [ledger, entity_of_not_knows h]
  rfl

/-! ### Quiet work -/

/-- Work that writes nothing down and changes no entity in what identifies it. -/
structure Quiet (c c' : Catalog) : Prop where
  knows : ∀ {e}, c.Knows e → c'.Knows e
  identity : ∀ {e}, c.Knows e → (c'.entity e).identity = (c.entity e).identity
  ledger : ∀ n, c'.ledger n = c.ledger n

namespace Quiet

theorem refl (c : Catalog) : Quiet c c := ⟨id, fun _ => rfl, fun _ => rfl⟩

theorem trans (h : Quiet c c') (h' : Quiet c' c'') : Quiet c c'' where
  knows hk := h'.knows (h.knows hk)
  identity hk := (h'.identity (h.knows hk)).trans (h.identity hk)
  ledger n := (h'.ledger n).trans (h.ledger n)

theorem settled (h : Quiet c c') (hk : c.Knows e) :
    (c'.entity e).settled = (c.entity e).settled :=
  Entity.settled_eq_of_identity (h.identity hk)

theorem path (h : Quiet c c') (hk : c.Knows e) : c'.path e = c.path e :=
  Entity.path_eq_of_identity (h.identity hk)

theorem update (c : Catalog) (e : EntityId) {f : Entity → Entity}
    (hi : ∀ x, (f x).identity = x.identity) (hl : ∀ x, (f x).ledger = x.ledger) :
    Quiet c (c.update e f) where
  knows hk := by simpa [Knows] using hk
  identity _ := entity_update_congr Entity.identity c e _ f hi
  ledger n := entity_update_congr Entity.ledger c e n f hl

/-- A change of fields that are neither identity nor tables. -/
theorem updateMethod (c : Catalog) (e : EntityId) {f : MethodFields → MethodFields}
    (hf : ∀ m, (f m).scope = m.scope) : Quiet c (c.update e fun x => x.updateMethod f) :=
  .update c e (Entity.identity_updateMethod hf) fun x => x.ledger_updateMethod f

theorem adoptByOwner (c : Catalog) (e : EntityId) : Quiet c (c.adoptByOwner e) := by
  unfold Catalog.adoptByOwner
  split
  · exact .update c _ (fun x => x.identity_updateTables _) (Entity.ledger_updateTables fun _ => rfl)
  · exact .refl c

theorem enter (c : Catalog) (r : Registry) (e : EntityId) : Quiet c (c.enter r e) := by
  have hadopt : Quiet (c.put r e) ((c.put r e).adoptByOwner e) := adoptByOwner (c.put r e) e
  exact ⟨hadopt.knows, hadopt.identity, hadopt.ledger⟩

/-- A new entity that has written nothing down. -/
theorem add (c : Catalog) {x : Entity} (hx : x.ledger = {}) : Quiet c (c.add x).2 where
  knows := knows_add x
  identity hk := by rw [entity_add_of_knows x hk]
  ledger n := by
    rw [Catalog.ledger, entity_add]
    split
    · next hi =>
        have hn : ¬ c.Knows n := by
          unfold Knows
          omega
        rw [hx, ledger_of_not_knows hn]
    · rfl

end Quiet

end Catalog

open Catalog

/-! ### Quiet steps -/

/-- A step that is quiet work in any catalog, whether it succeeds or fails. -/
def Action.IsQuiet {α : Type} (a : Action α) : Prop := ∀ c, Quiet c (a c).2

namespace Action.IsQuiet

variable {α β : Type} {a : Action α} {f : α → Action β}

theorem of_run {c c' : Catalog} {x : Except Fault α} (ha : a.IsQuiet) (h : a c = (x, c')) :
    Quiet c c' := by
  have hq := ha c
  rwa [h] at hq

theorem pure (x : α) : (Pure.pure x : Action α).IsQuiet := fun c => .refl c

theorem throw (fault : Fault) : (MonadExcept.throw fault : Action α).IsQuiet := fun c => .refl c

/-- Reading plain data changes nothing. -/
theorem lift (q : Except Fault α) : (liftM q : Action α).IsQuiet := fun c => .refl c

theorem bind (ha : a.IsQuiet) (hf : ∀ x, (f x).IsQuiet) : (a >>= f).IsQuiet := by
  intro c
  have hc := ha c
  rw [bind_run]
  rcases hac : a c with ⟨_ | x, c'⟩ <;> rw [hac] at hc
  · exact hc
  · exact hc.trans (hf x c')

theorem get {f : Catalog → Action β} (hf : ∀ d, (f d).IsQuiet) :
    (MonadState.get >>= f).IsQuiet := fun c => hf c c

theorem change {f : Catalog → Catalog} (hf : ∀ c, Quiet c (f c)) : (Action.change f).IsQuiet := hf

theorem foldlM {l : List α} {f : β → α → Action β} (hf : ∀ b x, (f b x).IsQuiet) :
    ∀ b, (l.foldlM f b).IsQuiet := by
  induction l with
  | nil => exact fun b => pure b
  | cons x l ih =>
      intro b
      rw [List.foldlM_cons]
      exact bind (hf b x) ih

end Action.IsQuiet

namespace Catalog

open DocCatalog.Action (IsQuiet)

theorem quiet_register (r : Registry) (e : EntityId) : (register r e).IsQuiet := by
  intro c
  show Quiet c ((if (c.entity e).home = r then _ else _ : Action Unit) c).2
  split
  · exact .enter c r e
  · exact .refl c

theorem quiet_make {kind : EntityKind} {form : Registry → Form} {o : Origin}
    (hl : ∀ (c : Catalog) home, (c.newEntity o home form).ledger = {}) : (make kind form o).IsQuiet := by
  intro c
  cases hh : c.homeOf? o with
  | none =>
      rw [make_of_homeless hh]
      exact .refl c
  | some home =>
      rw [make_of_homeOf? hh]
      exact (Quiet.add c (hl c home)).trans (.adoptByOwner _ _)

theorem quiet_makeSpace (o : Origin) : (makeSpace o).IsQuiet := quiet_make fun _ _ => rfl

theorem quiet_makeMethod (o : Origin) (scope : Value) : (makeMethod o scope).IsQuiet := by
  unfold makeMethod
  split
  · exact .throw _
  · exact quiet_make fun _ _ => rfl

theorem quiet_ensureNested (r : Registry) (n : EntityId) (name : String) :
    (ensureNested r n name).IsQuiet := by
  refine IsQuiet.get fun d => ?_
  split
  · exact .pure _
  · exact .bind (quiet_makeSpace _) fun e => .bind (quiet_register r e) fun _ => .pure e

/-- **Making the namespaces of a path is quiet.** -/
theorem quiet_ensureNamespace (r : Registry) (path : String) :
    (ensureNamespace r path).IsQuiet := by
  refine IsQuiet.get fun d => ?_
  split
  · exact .pure _
  · refine IsQuiet.foldlM (fun n name => ?_) _
    split
    · exact .throw _
    · exact quiet_ensureNested r n name

end Catalog

namespace Manifest

open DocCatalog.Action (IsQuiet)

/-- **Giving an entity its documentation and its place is quiet.** -/
theorem quiet_annotate (e : EntityId) (entry : Fields) (part : Part) :
    (annotate e entry part).IsQuiet := by
  have hdocument : (document e entry part).IsQuiet := by
    unfold document
    split
    · exact .bind (.lift _) fun _ => .change fun c => .update c e (fun _ => rfl) fun _ => rfl
    · exact .pure _
  refine .bind hdocument fun _ => .bind (.lift _) fun place => ?_
  split
  · exact .change fun c =>
      .update c e (fun x => x.identity_addFile _ _) fun x => x.ledger_addFile _ _
  · exact .pure _

/-- **Describing a method is quiet.** -/
theorem quiet_describe (m : EntityId) (entry : Fields) : (describe m entry).IsQuiet := by
  have hexpose : (expose m entry).IsQuiet := by
    unfold expose setVisibility
    split
    · split
      · exact .throw _
      · exact .change fun c => .updateMethod c m fun _ => rfl
    · exact .pure _
  have hparameters : ∀ v, (setParameters m v).IsQuiet := by
    intro v
    unfold setParameters
    split
    · exact .throw _
    · exact .change fun c => .updateMethod c m fun _ => rfl
  refine .bind hexpose fun _ => .bind (.lift _) fun items => .bind (hparameters _) fun _ => ?_
  exact .bind (.change fun c => .updateMethod c m fun _ => rfl) fun _ =>
    quiet_annotate m entry .methods

theorem quiet_loadNamespace (r : Registry) (entry : Fields) : (loadNamespace r entry).IsQuiet :=
  .bind (.lift _) fun path => .bind (quiet_ensureNamespace r path) fun n =>
    quiet_annotate n entry .namespaces

theorem quiet_loadMethod (r : Registry) (entry : Fields) : (loadMethod r entry).IsQuiet :=
  .bind (.lift _) fun path => .bind (quiet_ensureNamespace r path) fun _ =>
    .bind (.lift _) fun _ => .bind (quiet_makeMethod _ _) fun m =>
      .bind (quiet_describe m entry) fun _ => quiet_register r m

end Manifest

end DocCatalog
