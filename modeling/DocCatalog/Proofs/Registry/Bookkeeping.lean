/-
**What is kept by all that is written to registries and to the journal.**

Of a registry and of the journal few steps change anything: an entity is entered or deleted, goes to
another path, or a registry is opened or begun again.  Whatever else is done to entities leaves
both as they are, and a manifest that is loaded enters entities and notes that it was loaded.  So a
property of registries and of the journal that the few keep, every operation keeps, and all of a
manifest wherever it stops.

Main definitions:

* `Catalog.Booked`: a property of registries and of the journal, and the operations that keep it.

Main results:

* `Catalog.Booked.walk`: loading keeps what is kept by the writes to registries;
* `Catalog.Booked.keeps`: **so does every operation that is admitted**.
-/

import DocCatalog.Proofs.Catalog.Session
import DocCatalog.Proofs.Manifest.Walking
import DocCatalog.Proofs.Registry.Commuting

set_option autoImplicit false

namespace DocCatalog.Catalog

open DocCatalog.Action (Keeps)

/-- A registry that is begun again leaves the others what they hold. -/
theorem holdings_clear_of_ne (c : Catalog) {r r' : Registry} (h : r'.index ≠ r.index) :
    (c.clear r').holdings r = c.holdings r := by
  simp [holdings, clear, updateHoldings, add, Array.getElem?_modify, h]

theorem stock_size_clear (c : Catalog) (r : Registry) :
    (c.clear r).stock.size = c.stock.size := by simp [clear, updateHoldings, add]

/-- A property of what the registries hold and of the journal, which is kept by the writes to them;
by some of these only in the operations that are admitted. -/
structure Booked (admitted : Operation → Prop) (P : Catalog → Prop) : Prop where
  same : ∀ {c c'}, P c → c'.stock = c.stock → c'.journal = c.journal → P c'
  enter : ∀ {c} r e, P c → P (c.enter r e)
  loaded : ∀ {c} r count, P c → P (c.note r (.loaded count))
  openRegistry : ∀ {c} config, P c → P (c.openRegistry config).2
  clear : ∀ {c r}, admitted (.clear r) → P c → P (c.clear r)
  delete : ∀ {c r e}, admitted (.delete r e) → P c → P (c.delete r e)
  rescope : ∀ {c e v} s, admitted (.setScope e v) → P c → P (c.rescope e s)

namespace Booked

variable {admitted : Operation → Prop} {P : Catalog → Prop} (h : Booked admitted P)
include h

theorem founded {c : Catalog} (hc : P c) (x : Entity) : P (c.founded x) := by
  refine h.same hc (stock_adoptByOwner _ _) ?_
  simp only [Catalog.founded, adoptByOwner, add]
  split <;> rfl

/-- Loading into any registry keeps what the writes to registries keep. -/
theorem walk (r : Registry) : Manifest.Walk r P (fun _ => P) fun _ => P where
  keeps hc := hc
  made_keeps hc := hc
  root hc := hc
  member hc _ := hc
  found hc := h.founded hc _
  make hc _ := h.founded hc _
  enter {e _} hc _ := h.enter r e hc
  made_enter {e _} hc _ := h.enter r e hc
  touch hc _ := h.same hc rfl rfl
  made_touch hc _ := h.same hc rfl rfl
  loaded hc := h.loaded r _ hc

theorem keeps_make (kind : EntityKind) (form : Registry → Form) (o : Origin) :
    (make kind form o).Keeps P := by
  intro c hc
  cases hh : c.homeOf? o with
  | none => exact .of_error (make_of_homeless hh) hc
  | some home => exact .of_ok (make_of_homeOf? hh) (h.founded hc _)

/-- **Every operation that is admitted keeps it**, whether it succeeds or fails. -/
theorem keeps {op : Operation} (hop : admitted op) : op.action.Keeps P := by
  have hdrop : ∀ {α : Type} {a : Action α}, a.Keeps P → (do let _ ← a : Action Unit).Keeps P :=
    fun ha => ha.bind fun _ => .pure ()
  cases op with
  | openRegistry config => exact .change fun c hc => h.openRegistry config hc
  | clear r => exact .change fun c hc => h.clear hop hc
  | makeEntry o => exact hdrop (h.keeps_make _ _ o)
  | makeSpace o => exact hdrop (h.keeps_make _ _ o)
  | makeMethod o scope =>
      refine hdrop ?_
      unfold makeMethod
      split
      · exact .throw _
      · exact h.keeps_make _ _ o
  | register r e =>
      refine fun c hc => .get ?_
      split
      · exact .set (h.enter r e hc)
      · exact .throw hc
  | delete r e => exact .change fun c hc => h.delete hop hc
  | dismiss n e =>
      refine .change fun c hc => h.same hc (c.stock_dismiss n e) ?_
      simp only [Catalog.dismiss]
      split <;> rfl
  | setScope e scope =>
      refine fun c hc => .of_run (P := P) ?_
      rw [Operation.action, setScope_eq]
      split
      · exact hc
      · split
        · exact hc
        · exact h.rescope _ hop hc
  | setVisibility e visibility =>
      show (setVisibility e visibility).Keeps _
      unfold setVisibility
      split
      · exact .throw _
      · exact .change fun c hc => h.same hc rfl rfl
  | setParameters e parameters =>
      show (setParameters e parameters).Keeps _
      unfold setParameters
      split
      · exact .throw _
      · exact .change fun c hc => h.same hc rfl rfl
  | setExplicit e explicit => exact .change fun c hc => h.same hc rfl rfl
  | setDocstring e docstring => exact .change fun c hc => h.same hc rfl rfl
  | addFile e file line => exact .change fun c hc => h.same hc rfl rfl
  | addAttribute n scope name read write =>
      exact hdrop fun c hc => ends_addAttribute (fun hc _ => h.same hc rfl rfl) scope name
        (fun _ _ => trivial) (fun _ _ => trivial) hc
  | dropAttributes n s => exact .change fun c hc => h.same hc rfl rfl
  | addAlias n e? name => exact .change fun c hc => h.same hc rfl rfl
  | ensureNamespace r path => exact hdrop fun c hc => (h.walk r).ends_ensureNamespace hc path
  | load r data => exact fun c hc => (h.walk r).ends_load data hc
  | loadFresh data =>
      refine hdrop fun c hc => .bind (Q := fun _ => P) (.lift (fun _ _ => hc) fun _ _ => hc)
        fun fields d hd => .get ?_
      refine .bind (Q := fun _ => P) (.set (h.openRegistry default hd)) ?_
      intro _ d' hd'
      exact .bind ((h.walk _).ends_loadParts fields hd') fun _ _ hc => .pure hc

end Booked

end DocCatalog.Catalog
