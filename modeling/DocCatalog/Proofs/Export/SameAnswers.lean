/-
**Registries that correspond answer alike.**

Where two registries hold the same up to the correspondence of their entities, whoever asks them
cannot tell them apart: paths, records, listings and faults show no reference and are the same, and
what is answered with an entity on one side is answered with its twin on the other.

Main definitions:

* `Pairing.SameAnswers`: two registries that answer alike.

Main results:

* `forall₂_mergeSort`: lists that correspond are put in order alike;
* `Pairing.Mirrors.record_eq`: twins have one record;
* `Pairing.Mirrors.resolve`: a name means the same from inside corresponding namespaces;
* `Pairing.Mirrors.sameAnswers`: **registries that correspond answer alike**.
-/

import DocCatalog.Export.Listing
import DocCatalog.Proofs.Registry.Twins

set_option autoImplicit false

namespace DocCatalog

open Catalog

/-! ### Lists that correspond -/

section Lists

variable {α β γ : Type} {R : α → β → Prop}

theorem map_eq_of_rel {x : Option α} {y : Option β} {f : α → γ} {g : β → γ} (h : Option.Rel R x y)
    (hfg : ∀ a b, R a b → f a = g b) : x.map f = y.map g := by
  cases h with
  | some h => exact congrArg some (hfg _ _ h)
  | none => rfl

theorem isSome_eq_of_rel {x : Option α} {y : Option β} (h : Option.Rel R x y) :
    x.isSome = y.isSome := by
  cases h <;> rfl

theorem rel_bind {δ : Type} {S : γ → δ → Prop} {x : Option α} {y : Option β} {f : α → Option γ}
    {g : β → Option δ} (h : Option.Rel R x y) (hfg : ∀ a b, R a b → Option.Rel S (f a) (g b)) :
    Option.Rel S (x.bind f) (y.bind g) := by
  cases h with
  | some h => exact hfg _ _ h
  | none => exact .none

theorem map_eq_of_forall₂ {l : List α} {l' : List β} {f : α → γ} {g : β → γ}
    (h : List.Forall₂ R l l') (hfg : ∀ a b, R a b → f a = g b) : l.map f = l'.map g := by
  induction h with
  | nil => rfl
  | cons h _ ih => rw [List.map_cons, List.map_cons, hfg _ _ h, ih]

theorem mapM_eq_of_forall₂ {l : List α} {l' : List β} {f : α → Except Fault γ}
    {g : β → Except Fault γ} (h : List.Forall₂ R l l') (hfg : ∀ a b, R a b → f a = g b) :
    l.mapM f = l'.mapM g := by
  induction h with
  | nil => rfl
  | cons h _ ih => rw [List.mapM_cons, List.mapM_cons, hfg _ _ h, ih]

theorem rel_findSome? {l : List γ} {f : γ → Option α} {g : γ → Option β}
    (h : ∀ x, Option.Rel R (f x) (g x)) : Option.Rel R (l.findSome? f) (l.findSome? g) := by
  induction l with
  | nil => exact .none
  | cons x l ih =>
      have hx := h x
      rw [List.findSome?_cons, List.findSome?_cons]
      generalize f x = y, g x = y' at hx
      cases hx with
      | some h => exact .some h
      | none => exact ih

/-- Lists that correspond are put in order alike. -/
theorem forall₂_mergeSort {le : α → α → Bool} {le' : β → β → Bool}
    (hle : ∀ a a' b b', R a a' → R b b' → le a b = le' a' b') {l : List α} {l' : List β}
    (h : List.Forall₂ R l l') : List.Forall₂ R (l.mergeSort le) (l'.mergeSort le') := by
  -- both lists are the two sides of one list of pairs
  obtain ⟨z, rfl, rfl⟩ : ∃ z : List {p : α × β // R p.1 p.2},
      l = z.map (fun p => p.1.1) ∧ l' = z.map (fun p => p.1.2) := by
    induction h with
    | nil => exact ⟨[], rfl, rfl⟩
    | @cons a b _ _ hab _ ih =>
        obtain ⟨z, hl, hl'⟩ := ih
        exact ⟨⟨(a, b), hab⟩ :: z, by rw [hl]; rfl, by rw [hl']; rfl⟩
  rw [← List.map_mergeSort (r := fun p q => le p.1.1 q.1.1) fun _ _ _ _ => rfl,
    ← List.map_mergeSort (r := fun p q => le p.1.1 q.1.1) fun p _ q _ => hle _ _ _ _ p.2 q.2]
  exact List.forall₂_map_left_iff.2 (List.forall₂_map_right_iff.2 (List.forall₂_same.2
    fun p _ => p.2))

end Lists

/-- Corresponding methods have corresponding aliases, if their owners have down what corresponds. -/
theorem Catalog.forall₂_aliasesOf {R : EntityId → EntityId → Prop} (hR : Relator.BiUnique R)
    {c c' : Catalog} {e e' : EntityId} (he : R e e')
    (hname : (c.entity e).name = (c'.entity e').name)
    (hscope : ∀ {a a'}, R a a' → (c.entity a).scope? = (c'.entity a').scope?)
    (ho : Option.Rel (OrderedTable.Twins (Option.Rel R) Eq)
      ((c.entity e).owner?.map fun n => (c.tables n).aliases)
      ((c'.entity e').owner?.map fun n => (c'.tables n).aliases)) :
    List.Forall₂ R (c.aliasesOf e) (c'.aliasesOf e') := by
  simp only [Catalog.aliasesOf]
  generalize (c.entity e).owner? = n?, (c'.entity e').owner? = n?' at ho
  cases n? <;> cases n?' <;> cases ho
  · exact .nil
  · next htable =>
      have hdown := List.rel_filter (p := fun p => decide (p.2 = (c.entity e).name))
        (q := fun p => decide (p.2 = (c'.entity e').name))
        (fun p p' hp => by simp only [hp.2, hname]) htable
      refine List.rel_filter (fun a a' ha => ?_) (List.rel_filterMap (fun _ _ hp => hp.1) hdown)
      have hiff : a = e ↔ a' = e' := Relator.rel_eq hR ha he
      simp only [hscope ha, hscope he, ne_eq, hiff]

namespace Pairing

variable {ρ : Pairing} {c c' : Catalog} {e e' n n' : EntityId}

/-- Two registries answer alike: what shows no entity is the same, and of entities each side names
its own. -/
structure SameAnswers (ρ : Pairing) (c c' : Catalog) : Prop where
  paths : c.paths ρ.left = c'.paths ρ.right
  listing : ∀ filters, c.listing ρ.left filters = c'.listing ρ.right filters
  record : ∀ {e e'}, ρ.twins e e' → c.record e = c'.record e'
  lookup : ∀ path, Accord (Option.Rel ρ.twins) (c.lookup ρ.left path) (c'.lookup ρ.right path)
  child : ∀ {n n'}, ρ.twins n n' → ∀ name scope,
    Accord (Option.Rel ρ.twins) (c.child n name scope) (c'.child n' name scope)
  resolve : ∀ {n? n?'}, Option.Rel ρ.twins n? n?' → ∀ name,
    Option.Rel ρ.twins (c.resolve ρ.left n? name) (c'.resolve ρ.right n?' name)

namespace Mirrors

/-! ### Records -/

theorem accessors? (h : ρ.Mirrors c c') (he : ρ.twins e e') :
    Option.Rel (Accessors.Twins ρ.twins) (c.accessors? e) (c'.accessors? e') := by
  have hx := h.entity he
  unfold Catalog.accessors?
  refine rel_bind hx.owner? fun n n' hn => ?_
  rw [hx.scope?_eq]
  refine rel_bind (R := Eq) (by cases (c'.entity e').scope? <;> constructor; rfl) ?_
  rintro s _ rfl
  refine rel_bind ((h.tables hn).attributes s) fun t t' ht => ?_
  rw [Entity.attributeName, hx.name]
  exact ht.find? _

theorem isAlias_eq (h : ρ.Mirrors c c') (he : ρ.twins e e') : c.isAlias e = c'.isAlias e' := by
  have ho := (h.entity he).owner?
  unfold Catalog.isAlias
  generalize (c.entity e).owner? = n?, (c'.entity e').owner? = n?' at ho
  cases ho with
  | none => rfl
  | some hn =>
      exact isSome_eq_of_rel ((h.tables hn).aliases.get? (biUnique_option ρ.biUnique) (.some he))

theorem aliasesOf (h : ρ.Mirrors c c') (he : ρ.twins e e') :
    List.Forall₂ ρ.twins (c.aliasesOf e) (c'.aliasesOf e') :=
  forall₂_aliasesOf ρ.biUnique he (h.entity he).name (fun ha => (h.entity ha).scope?_eq)
    (rel_map (h.entity he).owner? fun _ _ hn => (h.tables hn).aliases)

/-- **Twins have one record.** -/
theorem record_eq (h : ρ.Mirrors c c') (he : ρ.twins e e') : c.record e = c'.record e' := by
  have hx := h.entity he
  have hmethod : ∀ m, c.methodRecord e m = c'.methodRecord e' m := by
    intro m
    rw [Catalog.methodRecord, Catalog.methodRecord, hx.name, Catalog.isAttribute,
      Catalog.isAttribute, isSome_eq_of_rel (h.accessors? he), h.isAlias_eq he,
      map_eq_of_forall₂ (h.aliasesOf he) fun _ _ => h.path_eq]
  have howner : (c.entity e).owner?.map c.path = (c'.entity e').owner?.map c'.path :=
    map_eq_of_rel hx.owner? fun _ _ => h.path_eq
  have hdoc : (c.entity e).docstring = (c'.entity e').docstring :=
    congrArg Profile.docstring hx.profile
  simp only [Catalog.record, hx.path_eq, hx.kind_eq, hx.name, hx.files_eq, hx.method?_eq, howner,
    hdoc, hmethod]

/-! ### Listings -/

theorem held (h : ρ.Mirrors c c') (filters : List Filter) :
    List.Forall₂ ρ.twins (c.held ρ.left filters) (c'.held ρ.right filters) := by
  unfold Catalog.held
  split
  · exact h.entries.values
  · refine List.rel_filter (fun e e' he => ?_) h.entries.values
    simp only [(h.entity he).kind_eq]

theorem inOrder (h : ρ.Mirrors c c') (filters : List Filter) :
    List.Forall₂ ρ.twins (c.inOrder ρ.left filters) (c'.inOrder ρ.right filters) := by
  refine forall₂_mergeSort (fun a a' b b' ha hb => ?_) (h.held filters)
  rw [h.path_eq ha, h.path_eq hb]

theorem listing_eq (h : ρ.Mirrors c c') (filters : List Filter) :
    c.listing ρ.left filters = c'.listing ρ.right filters := by
  have hsize : (c.entries ρ.left).size = (c'.entries ρ.right).size :=
    List.Forall₂.length_eq h.entries
  rw [Catalog.listing, Catalog.listing, hsize,
    mapM_eq_of_forall₂ (h.inOrder filters) fun _ _ => h.record_eq]

/-! ### Names -/

theorem child (h : ρ.Mirrors c c') (hn : ρ.twins n n') (name scope : Value) :
    Accord (Option.Rel ρ.twins) (c.child n name scope) (c'.child n' name scope) := by
  unfold Catalog.child
  cases scopeArgument scope with
  | error fault => rfl
  | ok scope? =>
      cases nameArgument name with
      | error fault => rfl
      | ok name? =>
          show Option.Rel ρ.twins (name?.bind _) (name?.bind _)
          refine rel_bind (R := Eq) (by cases name? <;> constructor; rfl) ?_
          rintro name _ rfl
          cases scope? with
          | none => exact (h.tables hn).member? name
          | some s => exact (h.tables hn).members.get? biUnique_eq rfl

theorem lookup (h : ρ.Mirrors c c') (path : Value) :
    Accord (Option.Rel ρ.twins) (c.lookup ρ.left path) (c'.lookup ρ.right path) := by
  unfold Catalog.lookup
  cases nameArgument path with
  | error fault => rfl
  | ok path? =>
      cases path? with
      | none => exact .none
      | some path => exact h.lookup? path

theorem chainPaths_eq {l l' : List Ancestor} (h : List.Forall₂ ρ.Ancestors l l') :
    chainPaths l = chainPaths l' := by
  induction h with
  | nil => rfl
  | cons ha hl ih => rw [chainPaths, chainPaths, lineagePath_eq (.cons ha hl), ih]

theorem searchPaths_eq (h : ρ.Mirrors c c') {n? n?' : Option EntityId}
    (hn : Option.Rel ρ.twins n? n?') :
    c.searchPaths ρ.left n? = c'.searchPaths ρ.right n?' := by
  have htwins : ρ.twins (n?.getD (c.root ρ.left)) (n?'.getD (c'.root ρ.right)) := rel_getD hn h.root
  have hx := h.entity htwins
  have htop := rel_getD (rel_map (rel_getLast? hx.lineage) fun _ _ ha => ha.id) htwins
  have hiff := Relator.rel_eq ρ.biUnique htop h.root
  simp only [Catalog.searchPaths, hx.path_eq, chainPaths_eq hx.lineage, hiff]

/-- A name means the same from inside corresponding namespaces. -/
theorem resolve (h : ρ.Mirrors c c') {n? n?' : Option EntityId} (hn : Option.Rel ρ.twins n? n?')
    (name : String) :
    Option.Rel ρ.twins (c.resolve ρ.left n? name) (c'.resolve ρ.right n?' name) := by
  have hseparators : searchSeparators ρ.left = searchSeparators ρ.right := by
    rw [searchSeparators, searchSeparators, Registry.separators, Registry.separators, ρ.config_eq]
  rw [Catalog.resolve, Catalog.resolve, h.searchPaths_eq hn, hseparators]
  exact rel_findSome? fun base => rel_findSome? fun p => h.entries.get? biUnique_eq rfl

/-- **Registries that correspond answer alike.** -/
theorem sameAnswers (h : ρ.Mirrors c c') : ρ.SameAnswers c c' where
  paths := List.forall₂_eq_eq_eq ▸ h.entries.keys
  listing := h.listing_eq
  record := h.record_eq
  lookup := h.lookup
  child := h.child
  resolve := h.resolve

end Mirrors

end Pairing

end DocCatalog
