/-
**Which methods are aliases, and of what.**

A namespace keeps one name for each method that it has down as an alias, the one that was written
last.  The question is asked the other way round: which methods does the owner of a method have down
as aliases of its name, as far as they have its scope now.  The owner may have methods of other
namespaces down, and these are among the answers; but whether a method counts as an alias at all is
asked of its own owner only.

Main definitions:

* `Manifest.bindings`: the entries about a namespace that bind one method.

Main results:

* `OrderedTable.get?_insertMany`: of the values that are written at a key the last stays;
* `Catalog.mem_aliasesOf_iff`, `Catalog.nodup_aliasesOf`: the aliases of a method;
* `Manifest.aliases_of_entries`: **aliases after a manifest**.
-/

import DocCatalog.Proofs.Manifest.Bindings
import Mathlib.Data.List.Nodup

set_option autoImplicit false

namespace DocCatalog

open Catalog Manifest

/-! ### Tables of aliases -/

/-- Of the values that are written at a key the last stays. -/
theorem OrderedTable.get?_insertMany {κ α : Type} [DecidableEq κ] (k : κ) (l : List (κ × α)) :
    ∀ t : OrderedTable κ α, (t.insertMany l).get? k =
      (l.filterMap fun p => if p.1 = k then some p.2 else none).getLast?.or (t.get? k) := by
  induction l with
  | nil => exact fun _ => rfl
  | cons p l ih =>
      intro t
      show ((t.insert p.1 p.2).insertMany l).get? k = _
      rw [ih, get?_insert, getLast?_filterMap_cons, Option.or_assoc]
      split <;> rfl

namespace Tables

variable {denoted : String → Option EntityId}

/-- Attributes are written to tables of their own. -/
theorem aliases_foldl_attributes (l : List Fields) : ∀ t : Tables,
    (l.foldl (fun t entry => t.enter denoted entry .attributes) t).aliases = t.aliases := by
  induction l with
  | nil => exact fun _ => rfl
  | cons entry l ih =>
      intro t
      rw [List.foldl_cons, ih, enter]
      split <;> simp

theorem aliases_foldl_enter (l : List Fields) : ∀ t : Tables,
    (l.foldl (fun t entry => t.enter denoted entry .aliases) t).aliases =
      t.aliases.insertMany (l.map fun entry => (denoted (aliasMethod entry), aliasName entry)) := by
  induction l with
  | nil => exact fun _ => rfl
  | cons entry l ih =>
      intro t
      rw [List.foldl_cons, ih]
      rfl

end Tables

/-! ### Methods -/

namespace Catalog

variable {c : Catalog} {a b n : EntityId}

/-- The aliases of a method are those that its owner has down under its name, as far as they have
its scope; the method itself is none. -/
theorem mem_aliasesOf_iff (ho : (c.entity b).owner? = some n) : a ∈ c.aliasesOf b ↔
    a ≠ b ∧ (c.entity a).scope? = (c.entity b).scope? ∧
      (c.ledger n).aliases.get? (some a) = some (c.entity b).name := by
  rw [OrderedTable.get?_eq_some_iff, ledger_eq, Tables.aliases_ledger, aliasesOf, ho]
  simp only [List.mem_filter, List.mem_filterMap, Bool.and_eq_true, decide_eq_true_eq, ne_eq,
    decide_not, Bool.not_eq_true', decide_eq_false_iff_not]
  constructor
  · rintro ⟨⟨p, ⟨hp, hname⟩, hfst⟩, hne, hscope⟩
    exact ⟨hne, hscope, by rwa [← hfst, ← hname]⟩
  · rintro ⟨hne, hscope, hmem⟩
    exact ⟨⟨_, ⟨hmem, rfl⟩, rfl⟩, hne, hscope⟩

/-- No method is named twice among the aliases of another. -/
theorem nodup_aliasesOf (c : Catalog) (b : EntityId) : (c.aliasesOf b).Nodup := by
  cases ho : (c.entity b).owner? with
  | none => simp [aliasesOf, ho]
  | some n =>
      simp only [aliasesOf, ho]
      refine List.Nodup.filter _ ?_
      rw [show (Prod.fst : Option EntityId × String → Option EntityId) = id ∘ Prod.fst from rfl,
        ← List.filterMap_map]
      refine List.Nodup.filterMap (fun x y e hx hy => hx.trans hy.symm) ?_
      exact (List.filter_sublist.map Prod.fst).nodup (c.tables n).aliases.nodup

theorem isAlias_iff_isSome (ho : (c.entity a).owner? = some n) :
    c.isAlias a = true ↔ ((c.ledger n).aliases.get? (some a)).isSome = true := by
  rw [isAlias, ho]
  rfl

end Catalog

namespace Manifest

variable {c : Catalog} {data : Value}

/-- The entries about the namespace at a path that bind a method, where paths denote methods in some
way. -/
def bindings (denoted : String → Option EntityId) (data : Value) (path : String) (m : EntityId) :
    List Fields :=
  (about .aliases path (entriesIn data .aliases)).filter fun entry =>
    denoted (aliasMethod entry) = some m

section

variable {s : Session} (hs : s.Reachable) (config : Config)
  (hclean : ∀ part, ∀ entry ∈ entriesIn data part,
    Clean (s.catalog.openRegistry config).1 part entry)
  (hok : load (s.catalog.openRegistry config).1 data (s.catalog.openRegistry config).2 =
    (.ok (), c))
include hs hclean hok

/-- What the owner of a method has a method down as an alias of: the name that the last of the
entries gives which bind it. -/
theorem get?_aliases_of_newMethod {m : EntityId}
    (hm : NewMethod (s.catalog.openRegistry config).2 c m) (calls : List (EntityId × Value)) :
    let r := (s.catalog.openRegistry config).1
    let denoted := (turn r data .aliases (s.catalog.openRegistry config).2).denoted r
    let after := c.setScopes calls
    ∃ n, (after.entity m).owner? = some n ∧ ∀ a, (after.ledger n).aliases.get? (some a) =
      (bindings denoted data (after.path n) a).getLast?.map aliasName := by
  intro r denoted after
  obtain ⟨n, ho, hledger⟩ := ledger_of_newMethod hs config hclean hok hm calls
  refine ⟨n, ho, fun a => ?_⟩
  rw [hledger, Tables.aliases_foldl_enter, Tables.aliases_foldl_attributes,
    OrderedTable.get?_insertMany, List.filterMap_map, ← List.getLast?_map, ← List.filterMap_eq_map,
    bindings, List.filterMap_filter, OrderedTable.get?_empty, Option.or_none]
  simp only [decide_eq_true_eq]
  rfl

/-- **Aliases after a manifest in a new registry**, whatever scopes are given to methods
afterwards. -/
theorem aliases_of_entries (calls : List (EntityId × Value)) :
    let r := (s.catalog.openRegistry config).1
    let before := (s.catalog.openRegistry config).2
    let after := c.setScopes calls
    let bound (n a : EntityId) :=
      bindings ((turn r data .aliases before).denoted r) data (after.path n) a
    (∀ b, NewMethod before c b → ∃ n, (after.entity b).owner? = some n ∧
      (after.aliasesOf b).Nodup ∧ ∀ a, NewMethod before c a → (a ∈ after.aliasesOf b ↔
        a ≠ b ∧ (after.entity a).scope? = (after.entity b).scope? ∧
          ∃ entry, (bound n a).getLast? = some entry ∧
            aliasName entry = (after.entity b).name)) ∧
    ∀ a, NewMethod before c a → ∃ n, (after.entity a).owner? = some n ∧
      (after.isAlias a = true ↔ bound n a ≠ []) := by
  intro r before after bound
  constructor
  · intro b hb
    obtain ⟨n, ho, hget⟩ := get?_aliases_of_newMethod hs config hclean hok hb calls
    refine ⟨n, ho, after.nodup_aliasesOf b, fun a _ => ?_⟩
    rw [mem_aliasesOf_iff ho, hget, Option.map_eq_some_iff]
  · intro a ha
    obtain ⟨n, ho, hget⟩ := get?_aliases_of_newMethod hs config hclean hok ha calls
    refine ⟨n, ho, ?_⟩
    rw [isAlias_iff_isSome ho, hget, Option.isSome_map, List.getLast?_isSome]

end

/-- An alias that is written down twice, and that is given another scope afterwards together with
the method that it is an alias of. -/
theorem aliases_of_entries_rescoped :
    let method (name : String) : Value := .dict [("namespace", .text "Shop"), ("name", .text name)]
    let first : Fields := [("namespace", .text "Shop"), ("method", .text "Shop#sum"),
      ("aliases", .text "size")]
    let last : Fields := [("namespace", .text "Shop"), ("method", .text "Shop#sum"),
      ("aliases", .text "total")]
    let data : Value := .dict [("methods", .list [method "sum", method "total"]),
      ("aliases", .list [.dict first, .dict last])]
    let before := (({} : Catalog).openRegistry {}).2
    let c := (loadFresh data {}).2
    let after := c.setScopes [(⟨2⟩, .text "class"), (⟨3⟩, .text ":Class")]
    NewMethod before c ⟨2⟩ ∧ NewMethod before c ⟨3⟩ ∧ after.path ⟨2⟩ = "Shop.sum" ∧
      ⟨2⟩ ∈ after.aliasesOf ⟨3⟩ ∧ after.isAlias ⟨2⟩ = true := by
  intro method first last data before c after
  have hok : (loadFresh data {}).1.toBool = true := by decide +kernel
  obtain ⟨r', hrun⟩ := Action.exists_eq_ok hok
  obtain ⟨rfl, hload⟩ := loadFresh_eq_ok hrun
  have hclean : ∀ part, ∀ entry ∈ entriesIn data part,
      Clean (({} : Catalog).openRegistry {}).1 part entry := by
    intro part
    cases part <;> decide +kernel
  have hnew : ∀ i, i = 2 ∨ i = 3 → NewMethod before c ⟨i⟩ := by
    rintro i (rfl | rfl) <;> exact ⟨by decide +kernel, by decide +kernel, by decide +kernel⟩
  have howner : (after.entity ⟨2⟩).owner? = some ⟨1⟩ ∧ (after.entity ⟨3⟩).owner? = some ⟨1⟩ := by
    decide +kernel
  obtain ⟨hall, halias⟩ := aliases_of_entries (s := {}) .refl {} hclean hload
    [(⟨2⟩, .text "class"), (⟨3⟩, .text ":Class")]
  obtain ⟨n, ho, -, hmem⟩ := hall ⟨3⟩ (hnew 3 (.inr rfl))
  obtain rfl := Option.some.inj (howner.2.symm.trans ho)
  obtain ⟨n, ho, hbound⟩ := halias ⟨2⟩ (hnew 2 (.inl rfl))
  obtain rfl := Option.some.inj (howner.1.symm.trans ho)
  refine ⟨hnew 2 (.inl rfl), hnew 3 (.inr rfl), by decide +kernel, ?_, ?_⟩
  · exact (hmem ⟨2⟩ (hnew 2 (.inl rfl))).2
      ⟨by decide, by decide +kernel, last, by decide +kernel, by decide +kernel⟩
  · exact hbound.2 (by decide +kernel)

/-- A method of another namespace that the owner of a method has down as its alias. -/
theorem aliases_of_another_namespace :
    let total : Value := .dict [("namespace", .text "Shop"), ("name", .text "total")]
    let sum : Value := .dict [("namespace", .text "Cart"), ("name", .text "sum")]
    let binding : Value := .dict [("namespace", .text "Shop"), ("method", .text "Cart#sum"),
      ("aliases", .text "total")]
    let data : Value := .dict [("methods", .list [total, sum]), ("aliases", .list [binding])]
    let r := (({} : Catalog).openRegistry {}).1
    let before := (({} : Catalog).openRegistry {}).2
    let c := (load r data before).2
    (load r data before).1.toBool = true ∧
      (∀ part, ∀ entry ∈ entriesIn data part, Clean r part entry) ∧
      NewMethod before c ⟨4⟩ ∧ NewMethod before c ⟨2⟩ ∧ ⟨4⟩ ∈ c.aliasesOf ⟨2⟩ ∧
      (c.entity ⟨4⟩).owner? ≠ (c.entity ⟨2⟩).owner? := by
  intro total sum binding data r before c
  have hclean : ∀ part, ∀ entry ∈ entriesIn data part, Clean r part entry := by
    intro part
    cases part <;> decide +kernel
  have hnew : ∀ i, i = 4 ∨ i = 2 → NewMethod before c ⟨i⟩ := by
    rintro i (rfl | rfl) <;> exact ⟨by decide +kernel, by decide +kernel, by decide +kernel⟩
  exact ⟨by decide +kernel, hclean, hnew 4 (.inl rfl), hnew 2 (.inr rfl), by decide +kernel,
    by decide +kernel⟩

end Manifest

end DocCatalog
