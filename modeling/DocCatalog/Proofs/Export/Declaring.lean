/-
**Which parameters can be declared.**

A method takes its parameters as they are given: an item is a text, or a sequence of one or two
whose first is the name.  The name is not looked at.  It is looked at when the method is declared:
with a default behind it any name has a text form, but a name that stands alone must be a text.  So
a parameter may be accepted that cannot be declared, and it then keeps its method, and every
registry that holds the method, from being shown.

Main results:

* `Parameter.not_declarable_iff`: the items that give parameters that cannot be declared;
* `Catalog.row_ok_iff`, `Catalog.sheet_ok_iff`: an entity has a row, and a registry a table, exactly
  if all that is shown can be declared;
* `Catalog.parameters_kept_or_taken`: **parameters are refused and nothing is changed, or they are
  taken, and what is shown then is shown exactly if they can be declared**.
-/

import DocCatalog.Proofs.Catalog.Session
import DocCatalog.Proofs.Export.Alike

set_option autoImplicit false

namespace DocCatalog

/-! ### Parameters -/

namespace Parameter

/-- An item gives a parameter that cannot be declared exactly if it is a sequence of a name that is
no text, with no default or with null for one. -/
theorem not_declarable_iff {item : Value} {p : Parameter} (h : ofItem? item = some p) :
    ¬ p.Declarable ↔ ∃ name, (∀ s, name ≠ .text s) ∧
      item ∈ [.list [name], .list [name, .null], .tuple [name], .tuple [name, .null]] := by
  unfold ofItem? at h
  split at h <;> cases h <;> simp [Declarable] <;> grind

end Parameter

namespace Catalog

variable {c : Catalog} {r : Registry} {e : EntityId} {fs : List Filter}

/-- An entity has a row exactly if it can be declared. -/
theorem row_ok_iff : (∃ x, c.row e = .ok x) ↔ (c.entity e).Declarable := by
  cases hm : (c.entity e).method? with
  | none => exact iff_of_true ⟨_, by rw [row, hm]; rfl⟩ (by simp [Entity.Declarable, hm])
  | some m =>
      rw [declarable_iff_of_method hm, ← m.signature_ok_iff (c.entity e).name]
      simp only [row, hm]
      cases m.signature (c.entity e).name <;> simp [bind, Except.bind, pure, Except.pure]

/-- A registry has a table exactly if all that is shown of it can be declared. -/
theorem sheet_ok_iff {title : String} :
    (∃ s, c.sheet r fs title = .ok s) ↔ ∀ x ∈ c.held r fs, (c.entity x).Declarable := by
  simp only [← row_ok_iff, ← mem_inOrder_iff_held (c := c), ← mapM_ok_iff, sheet]
  cases (c.inOrder r fs).mapM c.row <;> simp [bind, Except.bind, pure, Except.pure]

/-! ### Parameters that are given -/

/-- What giving a method its parameters does, if they are taken. -/
theorem setParameters_eq (c : Catalog) (e : EntityId) (v : Value) : setParameters e v c =
    match Parameter.ofValue v with
    | .error fault => (.error fault, c)
    | .ok ps =>
        (.ok (), c.update e fun x => x.updateMethod fun m => { m with parameters := ps }) := by
  unfold setParameters
  cases Parameter.ofValue v <;> rfl

/-- **Parameters are refused and nothing is changed, or they are taken.**  Then the method has them
and all other entities are as before; its signature and its record are shown exactly if the
parameters can be declared, and the listing and the table of a registry, all of it or the entities
of some kinds, exactly if all that is shown can be declared. -/
theorem parameters_kept_or_taken {m : MethodFields} (hm : (c.entity e).method? = some m)
    (v : Value) :
    (∃ fault, setParameters e v c = (.error fault, c)) ∨
    ∃ ps c', Parameter.ofValue v = .ok ps ∧ setParameters e v c = (.ok (), c') ∧
      (c'.entity e).method? = some { m with parameters := ps } ∧
      (∀ x, x ≠ e → c'.entity x = c.entity x) ∧
      ((∃ s, MethodFields.signature { m with parameters := ps } (c'.entity e).name = .ok s) ↔
        ∀ p ∈ ps, p.Declarable) ∧
      ((∃ x, c'.record e = .ok x) ↔ ∀ p ∈ ps, p.Declarable) ∧
      ∀ (r : Registry) (fs : List Filter) (title : String),
        ((∃ l, c'.listing r fs = .ok l) ↔ ∀ x ∈ c'.held r fs, (c'.entity x).Declarable) ∧
        ((∃ s, c'.sheet r fs title = .ok s) ↔ ∀ x ∈ c'.held r fs, (c'.entity x).Declarable) := by
  have hknown : c.Knows e := by
    by_contra hnot
    rw [entity_of_not_knows hnot] at hm
    cases hm
  cases hps : Parameter.ofValue v with
  | error fault => exact .inl ⟨fault, by rw [setParameters_eq, hps]⟩
  | ok ps =>
      let c' := c.update e fun x => x.updateMethod fun m => { m with parameters := ps }
      have hentity (x : EntityId) := entity_update c e x
        (fun x => x.updateMethod fun m => { m with parameters := ps }) hknown
      have hm' : (c'.entity e).method? = some { m with parameters := ps } := by
        simp [c', hentity, hm]
      refine .inr ⟨ps, c', rfl, by rw [setParameters_eq, hps], hm', fun x hx => ?_,
        MethodFields.signature_ok_iff _ _, ?_, fun r fs title => ⟨listing_ok_iff, sheet_ok_iff⟩⟩
      · simp [c', hentity, hx.symm]
      · rw [record_ok_iff, declarable_iff_of_method hm']

/-- A registered method is given a name and a pair of a name and a default. -/
theorem parameters_kept_or_taken_pair :
    let r : Registry := ⟨0, {}⟩
    let act (c : Catalog) (op : Operation) : Catalog := (op.action c).2
    let c₁ := act {} (.openRegistry {})
    let c₂ := act c₁ (.makeMethod { owner? := some ⟨0⟩, name := .text "total" } (.text "class"))
    let c := act c₂ (.register r ⟨1⟩)
    let v : Value := .list [.text "items", .tuple [.text "tax", .int 0]]
    let ps : List Parameter := [⟨.text "items", .null⟩, ⟨.text "tax", .int 0⟩]
    let c' := (setParameters ⟨1⟩ v c).2
    (∃ m, (c.entity ⟨1⟩).method? = some m) ∧ (setParameters ⟨1⟩ v c).1 = .ok () ∧
      (∃ m, (c'.entity ⟨1⟩).method? = some m ∧ m.parameters = ps) ∧
      (∃ x, c'.record ⟨1⟩ = .ok x) ∧ (∃ l, c'.listing r [] = .ok l) ∧
      ∃ s, c'.sheet r [] "" = .ok s := by
  intro r act c₁ c₂ c v ps c'
  let m : MethodFields := { scope := .onClass, visibility := .publicAccess }
  have hm : (c.entity ⟨1⟩).method? = some m := by decide +kernel
  have hps : Parameter.ofValue v = .ok ps := rfl
  have hdeclarable : ∀ p ∈ ps, p.Declarable := by simp [ps, Parameter.Declarable]
  rcases parameters_kept_or_taken hm v with
    ⟨fault, hrun⟩ | ⟨ps', c'', hps', hrun, hm', -, -, hx, hr⟩
  · rw [setParameters_eq, hps] at hrun
    cases hrun
  · obtain rfl : ps = ps' := Except.ok.inj (hps.symm.trans hps')
    obtain rfl : c' = c'' := congrArg Prod.snd hrun
    have hheld : ∀ x ∈ c'.held r [], (c'.entity x).Declarable := by
      have hheld : c'.held r [] = [⟨1⟩] := by decide +kernel
      simp only [hheld, List.mem_singleton, forall_eq]
      exact (declarable_iff_of_method hm').2 hdeclarable
    exact ⟨⟨m, hm⟩, congrArg Prod.fst hrun, ⟨_, hm', rfl⟩, hx.2 hdeclarable,
      (hr r [] "").1.2 hheld, (hr r [] "").2.2 hheld⟩

/-- A registered method is given a name that is a number: it is taken, and neither the method nor
its registry is shown any more. -/
theorem number_taken_for_name :
    let r : Registry := ⟨0, {}⟩
    let act (c : Catalog) (op : Operation) : Catalog := (op.action c).2
    let c₁ := act {} (.openRegistry {})
    let c₂ := act c₁ (.makeMethod { owner? := some ⟨0⟩, name := .text "total" } (.text "class"))
    let c := act c₂ (.register r ⟨1⟩)
    let v : Value := .list [.list [.int 5]]
    let c' := (setParameters ⟨1⟩ v c).2
    (setParameters ⟨1⟩ v c).1 = .ok () ∧
      (∃ m, (c'.entity ⟨1⟩).method? = some m ∧ ¬ ∃ s, m.signature (c'.entity ⟨1⟩).name = .ok s) ∧
      (¬ ∃ x, c'.record ⟨1⟩ = .ok x) ∧ (¬ ∃ l, c'.listing r [] = .ok l) ∧
      ¬ ∃ s, c'.sheet r [] "" = .ok s := by
  intro r act c₁ c₂ c v c'
  let m : MethodFields := {
    scope := .onClass, visibility := .publicAccess, parameters := [⟨.int 5, .null⟩] }
  have hm : (c'.entity ⟨1⟩).method? = some m := by decide +kernel
  have hbare : ¬ ∀ p ∈ m.parameters, p.Declarable := by simp [m, Parameter.Declarable]
  have hentity : ¬ (c'.entity ⟨1⟩).Declarable := by rwa [declarable_iff_of_method hm]
  have hheld : ¬ ∀ x ∈ c'.held r [], (c'.entity x).Declarable := by
    have hheld : c'.held r [] = [⟨1⟩] := by decide +kernel
    simpa [hheld] using hentity
  exact ⟨rfl, ⟨m, hm, by rwa [MethodFields.signature_ok_iff]⟩, by rwa [record_ok_iff],
    by rwa [listing_ok_iff], by rwa [sheet_ok_iff]⟩

end Catalog

end DocCatalog
