/-
**How a step ends: with an answer or with a fault.**

What is said of a step here it says of both endings: of the answer and the catalog that it comes
with, and of the fault and the catalog that is left then.  So a law that holds although a step may
stop anywhere is proved along the step, and so is a law about the faults themselves.  The rules
follow the ways in which steps are composed.

Main definitions:

* `Action.Ends`: a step ends with an answer of one kind, or with a fault of another;
* `Action.Keeps`: a step keeps a property of catalogs, however it ends.

Main results:

* `Action.Ends.bind`, `Action.Ends.forM`, `Action.Ends.foldlM`: the rules of composition;
* `Action.Ends.run`: what holds of both endings holds of the catalog that is left.
-/

import DocCatalog.Proofs.Catalog.Leading

set_option autoImplicit false

namespace DocCatalog

open Catalog

namespace Action

variable {α β : Type}

/-- A step ends with an answer and a catalog that have a property, or with a fault and a catalog
that have another. -/
def Ends (a : Action α) (c : Catalog) (Q : α → Catalog → Prop)
    (E : Fault → Catalog → Prop) : Prop :=
  match a c with
  | (.ok x, c') => Q x c'
  | (.error fault, c') => E fault c'

variable {a : Action α} {f : α → Action β} {c : Catalog} {Q Q' : α → Catalog → Prop}
  {R : β → Catalog → Prop} {E E' : Fault → Catalog → Prop}

theorem ends_iff : a.Ends c Q E ↔ (∀ x c', a c = (.ok x, c') → Q x c') ∧
    ∀ fault c', a c = (.error fault, c') → E fault c' := by
  unfold Ends
  rcases a c with ⟨fault | x, c'⟩
  · constructor
    · intro h
      exact ⟨fun x d hx => (by cases hx), fun fault' d hf => (by cases hf; exact h)⟩
    · exact fun h => h.2 fault c' rfl
  · constructor
    · intro h
      exact ⟨fun y d hy => (by cases hy; exact h), fun fault d hf => (by cases hf)⟩
    · exact fun h => h.1 x c' rfl

namespace Ends

theorem pure {x : α} (h : Q x c) : (Pure.pure x : Action α).Ends c Q E := h

theorem throw {fault : Fault} (h : E fault c) : (MonadExcept.throw fault : Action α).Ends c Q E := h

theorem set {c' : Catalog} {Q : Unit → Catalog → Prop} (h : Q () c') :
    (MonadState.set c' : Action Unit).Ends c Q E := h

theorem change {g : Catalog → Catalog} {Q : Unit → Catalog → Prop} (h : Q () (g c)) :
    (Action.change g).Ends c Q E := h

theorem get {f : Catalog → Action β} (h : (f c).Ends c R E) : (MonadState.get >>= f).Ends c R E := h

/-- A step ends as it is known to end. -/
theorem of_ok {x : α} {c' : Catalog} (h : a c = (.ok x, c')) (hq : Q x c') : a.Ends c Q E := by
  unfold Ends
  rw [h]
  exact hq

/-- A step fails as it is known to fail. -/
theorem of_error {fault : Fault} {c' : Catalog} (h : a c = (.error fault, c')) (he : E fault c') :
    a.Ends c Q E := by
  unfold Ends
  rw [h]
  exact he

/-- Reading plain data changes nothing. -/
theorem lift {q : Except Fault α} (hq : ∀ x, q = .ok x → Q x c)
    (he : ∀ fault, q = .error fault → E fault c) : (liftM q : Action α).Ends c Q E := by
  cases q with
  | ok x => exact hq x rfl
  | error fault => exact he fault rfl

theorem mono (h : a.Ends c Q E) (hq : ∀ x c', Q x c' → Q' x c')
    (he : ∀ fault c', E fault c' → E' fault c') : a.Ends c Q' E' := by
  rw [ends_iff] at h ⊢
  exact ⟨fun x c' hx => hq x c' (h.1 x c' hx), fun fault c' hf => he fault c' (h.2 fault c' hf)⟩

theorem bind (ha : a.Ends c Q E) (hf : ∀ x c', Q x c' → (f x).Ends c' R E) :
    (a >>= f).Ends c R E := by
  unfold Ends at ha ⊢
  rw [bind_run]
  rcases hac : a c with ⟨_ | x, c'⟩ <;> rw [hac] at ha
  · exact ha
  · exact hf x c' ha

/-- A catalog of some kind stays of this kind through all of some steps. -/
theorem forM {l : List α} {f : α → Action Unit} {P : Catalog → Prop}
    (hf : ∀ x ∈ l, ∀ c, P c → (f x).Ends c (fun _ => P) E) :
    ∀ {c}, P c → (l.forM f).Ends c (fun _ => P) E := by
  induction l with
  | nil => exact fun hc => hc
  | cons x l ih =>
      intro c hc
      show (f x >>= fun _ => l.forM f).Ends c _ _
      exact bind (hf x (by simp) c hc) fun _ c' hc' => ih (fun y hy => hf y (by simp [hy])) hc'

theorem foldlM {l : List α} {f : β → α → Action β} {I : β → Catalog → Prop}
    (hf : ∀ x ∈ l, ∀ b c, I b c → (f b x).Ends c I E) :
    ∀ {b c}, I b c → (l.foldlM f b).Ends c I E := by
  induction l with
  | nil => exact fun hb => hb
  | cons x l ih =>
      intro b c hb
      rw [List.foldlM_cons]
      exact bind (hf x (by simp) b c hb) fun b' c' hb' => ih (fun y hy => hf y (by simp [hy])) hb'

/-- What holds of the catalog that is left holds of both endings. -/
theorem of_run {P : Catalog → Prop} (h : P (a c).2) : a.Ends c (fun _ => P) fun _ => P := by
  unfold Ends
  rcases hac : a c with ⟨_ | x, c'⟩ <;> rw [hac] at h <;> exact h

/-- What holds of both endings holds of the catalog that is left. -/
theorem run {P : Catalog → Prop} (h : a.Ends c (fun _ => P) fun _ => P) : P (a c).2 := by
  unfold Ends at h
  rcases hac : a c with ⟨_ | x, c'⟩ <;> rw [hac] at h <;> exact h

end Ends

/-- A step keeps a property of catalogs, however it ends. -/
def Keeps (P : Catalog → Prop) (a : Action α) : Prop :=
  ∀ c, P c → a.Ends c (fun _ => P) fun _ => P

namespace Keeps

variable {P : Catalog → Prop}

theorem pure (x : α) : (Pure.pure x : Action α).Keeps P := fun _ hc => hc

theorem throw (fault : Fault) : (MonadExcept.throw fault : Action α).Keeps P := fun _ hc => hc

theorem change {g : Catalog → Catalog} (h : ∀ c, P c → P (g c)) : (Action.change g).Keeps P := h

theorem bind (ha : a.Keeps P) (hf : ∀ x, (f x).Keeps P) : (a >>= f).Keeps P :=
  fun c hc => .bind (ha c hc) fun x c' hc' => hf x c' hc'

theorem get {f : Catalog → Action β} (hf : ∀ d, (f d).Keeps P) : (MonadState.get >>= f).Keeps P :=
  fun c hc => hf c c hc

end Keeps

end Action

end DocCatalog
