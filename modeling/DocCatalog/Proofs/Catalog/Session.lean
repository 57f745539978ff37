/-
**Sessions: everything that can be done to a catalog, in any order.**

A session begins with an empty catalog.  Whoever works with it opens and clears registries, makes,
registers and deletes entities, changes them, loads manifests, and begins and ends changes of path,
one inside the other if need be.  The body of a change of path may stop short at any point, and then
the change ends there; so a change may end after any number of steps.

Main definitions:

* `Operation`, `Operation.action`: what can be done at once, and the step that does it;
* `Operation.Granted`: an operation uses only references that were given out;
* `Session`: a catalog and the changes of path that go on, the innermost first;
* `Session.Step`, `Session.Reachable`: one step, and any number of them from the beginning.

Main results:

* `Operation.writes`: an operation consists of writes, whether it succeeds or fails;
* `Session.reaches_rekey`: a change of path around a body is a run of steps if the body is one.
-/

import DocCatalog.Proofs.Catalog.Leading

set_option autoImplicit false

namespace DocCatalog

open Catalog

/-! ### Operations -/

/-- What can be done to a catalog at once. -/
inductive Operation where
  | openRegistry (config : Config)
  | clear (r : Registry)
  | makeEntry (o : Origin)
  | makeSpace (o : Origin)
  | makeMethod (o : Origin) (scope : Value)
  | register (r : Registry) (e : EntityId)
  | delete (r : Registry) (e : EntityId)
  /-- A namespace strikes a member off its list. -/
  | dismiss (n e : EntityId)
  | setScope (e : EntityId) (scope : Value)
  | setVisibility (e : EntityId) (visibility : Value)
  | setParameters (e : EntityId) (parameters : Value)
  | setExplicit (e : EntityId) (explicit : Value)
  | setDocstring (e : EntityId) (docstring : Value)
  | addFile (e : EntityId) (file line : Value)
  | addAttribute (n : EntityId) (scope name : Value) (read write : Option EntityId)
  | dropAttributes (n : EntityId) (s : Scope)
  | addAlias (n : EntityId) (e? : Option EntityId) (name : Value)
  | ensureNamespace (r : Registry) (path : String)
  | load (r : Registry) (data : Value)
  | loadFresh (data : Value)

namespace Operation

/-- The step that an operation is; its answer does not matter here. -/
def action : Operation → Action Unit
  | openRegistry config => Action.change fun c => (c.openRegistry config).2
  | clear r => Action.change fun c => c.clear r
  | makeEntry o => do let _ ← Catalog.makeEntry o
  | makeSpace o => do let _ ← Catalog.makeSpace o
  | makeMethod o scope => do let _ ← Catalog.makeMethod o scope
  | register r e => Catalog.register r e
  | delete r e => Action.change fun c => c.delete r e
  | dismiss n e => Action.change fun c => c.dismiss n e
  | setScope e scope => Catalog.setScope e scope
  | setVisibility e visibility => Catalog.setVisibility e visibility
  | setParameters e parameters => Catalog.setParameters e parameters
  | setExplicit e explicit => Action.change fun c => c.setExplicit e explicit
  | setDocstring e docstring => Action.change fun c => c.setDocstring e docstring
  | addFile e file line => Action.change fun c => c.addFile e file line
  | addAttribute n scope name read write => do
      let _ ← Catalog.addAttribute n scope name read write
  | dropAttributes n s => Action.change fun c => c.dropAttributes n s
  | addAlias n e? name => Action.change fun c => c.addAlias n e? name
  | ensureNamespace r path => do let _ ← Catalog.ensureNamespace r path
  | load r data => Manifest.load r data
  | loadFresh data => do let _ ← Manifest.loadFresh data

/-- An operation uses only references that were given out, and owners that are namespaces.  A
reference that was not given out stands for nothing, and the operations that are not named here do
nothing to it. -/
def Granted (c : Catalog) : Operation → Prop
  | clear r => c.Opened r
  | makeEntry o => o.Known c
  | makeSpace o => o.Known c
  | makeMethod o _ => o.Known c
  | register r e => c.Opened r ∧ c.Knows e
  | delete r e => c.Opened r ∧ c.Knows e
  | setScope e _ => c.Knows e
  | ensureNamespace r _ => c.Opened r
  | load r _ => c.Opened r
  | _ => True

/-- An operation consists of writes, whether it succeeds or fails. -/
theorem writes {c : Catalog} (hc : c.WellFormed) {op : Operation} (h : op.Granted c) :
    Writes c (op.action c).2 := by
  -- an answer that is dropped takes nothing back
  have hdrop : ∀ {α : Type} {a : Action α} {Q : α → Catalog → Prop}, a.Leads c Q →
      (do let _ ← a : Action Unit).Leads c fun _ _ => True :=
    fun ha => ha.bind fun _ _ _ _ _ => .pure trivial
  have hleads : op.action.Leads c fun _ _ => True := by
    cases op with
    | openRegistry config => exact .change (.single (.openRegistry config)) trivial
    | clear r => exact .change (.single (.clear h)) trivial
    | makeEntry o => exact hdrop (leads_makeEntry h)
    | makeSpace o => exact hdrop (leads_makeSpace h)
    | makeMethod o scope => exact hdrop (leads_makeMethod h scope)
    | register r e => exact leads_register h.2
    | delete r e => exact .change (c.writes_delete r e) trivial
    | dismiss n e => exact .change (.single (.strike n e)) trivial
    | setScope e scope => exact leads_setScope h scope
    | setVisibility e visibility => exact c.leads_setVisibility e visibility
    | setParameters e parameters => exact c.leads_setParameters e parameters
    | setExplicit e explicit =>
        exact .change (.single (c.write_updateMethod e fun _ => rfl)) trivial
    | setDocstring e docstring => exact .change (.single (c.write_setDocstring e _)) trivial
    | addFile e file line => exact .change (.single (c.write_addFile e _ _)) trivial
    | addAttribute n scope name read write =>
        exact hdrop (c.leads_addAttribute n scope name read write)
    | dropAttributes n s =>
        exact .change (.single (c.write_updateTables n fun t => by simp)) trivial
    | addAlias n e? name => exact .change (.single (c.write_updateTables n fun _ => rfl)) trivial
    | ensureNamespace r path => exact hdrop (leads_ensureNamespace h path)
    | load r data => exact Manifest.leads_load h data
    | loadFresh data => exact hdrop (Manifest.leads_loadFresh c data)
  exact (hleads hc).1

end Operation

/-! ### Sessions -/

/-- A catalog and the changes of path that go on in it, the innermost first. -/
structure Session where
  catalog : Catalog := {}
  blocks : List Rekeying := []

namespace Session

/-- One step of a session. -/
inductive Step (s : Session) : Session → Prop where
  /-- An operation is done, or fails on the way and keeps what it did before. -/
  | act (op : Operation) (h : op.Granted s.catalog) :
      Step s { s with catalog := (op.action s.catalog).2 }
  /-- A change of path begins, in any registry and for any entity. -/
  | enter {r : Registry} {e : EntityId} (hr : s.catalog.Opened r) (hk : s.catalog.Knows e) :
      Step s ⟨(s.catalog.openRekey r e).2, (s.catalog.openRekey r e).1 :: s.blocks⟩
  /-- The innermost change of path ends, because its body is at its end or was stopped. -/
  | leave {k : Rekeying} {ks : List Rekeying} (h : s.blocks = k :: ks) :
      Step s ⟨s.catalog.closeRekey k, ks⟩

/-- Any number of steps. -/
abbrev Steps : Session → Session → Prop := Relation.ReflTransGen Step

/-- A session that can be come to from the beginning. -/
def Reachable (s : Session) : Prop := Steps {} s

/-- A change of path around a body is a run of steps if the body is one, whether the body succeeds
or fails. -/
theorem reaches_rekey {α : Type} {c : Catalog} {ks : List Rekeying} {r : Registry} {e : EntityId}
    {body : Action α} (hr : c.Opened r) (hk : c.Knows e)
    (hbody : Steps ⟨(c.openRekey r e).2, (c.openRekey r e).1 :: ks⟩
      ⟨(body (c.openRekey r e).2).2, (c.openRekey r e).1 :: ks⟩) :
    Steps ⟨c, ks⟩ ⟨(rekey r e body c).2, ks⟩ :=
  .trans (.head (.enter hr hk) hbody) (.single (.leave rfl))

end Session

end DocCatalog
