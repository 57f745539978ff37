/-
**Members of one owner that meet at one path.**

No two separators are equal, so a name alone never brings two members of one owner to one path.
One separator may still begin another, and then the rest of the longer one may be read as the
beginning of a name: with `-` before the methods of instances and `->` before those of classes,
`Shop->total` is the class's `total` and the instances' `>total`.  Nothing else makes the paths of
two members meet, as long as no name has a separator in it.

Main definitions:

* `Separators.Unbroken`: a name that is not empty and has no separator in it;
* `Separators.PrefixFree`: no separator begins another;
* `Entity.joint`: the text between the path of an entity's owner and its name;
* `Entity.RunsInto`: one entity's separator, continued by its name, reads as another's.

Main results:

* `Entity.meets_sibling_iff`: **two members of one owner meet exactly where one runs into the
  other**, and so neither under one name nor where no separator begins another.
-/

import DocCatalog.Proofs.Path.Rendering
import Mathlib.Data.List.Infix

set_option autoImplicit false

namespace DocCatalog

/-! ### Two ways of cutting a text -/

/-- Of two beginnings of one text one continues the other. -/
theorem Text.append_eq_append_cases {a b m n : String} (h : a ++ m = b ++ n) :
    (∃ rest, b = a ++ rest ∧ m = rest ++ n) ∨ ∃ rest, a = b ++ rest ∧ n = rest ++ m := by
  rw [← String.toList_inj, String.toList_append, String.toList_append,
    List.append_eq_append_iff] at h
  rcases h with ⟨rest, hb, hm⟩ | ⟨rest, ha, hn⟩
  · exact .inl ⟨String.ofList rest, by simp [← String.toList_inj, hb],
      by simp [← String.toList_inj, hm]⟩
  · exact .inr ⟨String.ofList rest, by simp [← String.toList_inj, ha],
      by simp [← String.toList_inj, hn]⟩

namespace Separators

/-! ### Separators within names and within each other -/

/-- The three separators. -/
def all (s : Separators) : List String := [s.nested, s.onClass, s.onInstance]

/-- A name that is not empty and has no separator in it. -/
def Unbroken (s : Separators) (name : String) : Prop :=
  name ≠ "" ∧ ∀ separator ∈ s.all, ¬ separator.toList <:+: name.toList

instance (s : Separators) (name : String) : Decidable (s.Unbroken name) :=
  inferInstanceAs (Decidable (name ≠ "" ∧ ∀ separator ∈ s.all, ¬ separator.toList <:+: name.toList))

/-- No separator begins another. -/
def PrefixFree (s : Separators) : Prop :=
  ∀ a ∈ s.all, ∀ b ∈ s.all, a.toList <+: b.toList → a = b

/-- What stands between the path of an owner and a name is nothing or a separator. -/
theorem joint_mem_all {s : Separators} {owner : String} {scope? : Option Scope}
    (h : s.joint owner scope? ≠ "") : s.joint owner scope? ∈ s.all := by
  rcases scope? with _ | _ | _
  · simp only [joint] at h ⊢
    split at h
    · exact absurd rfl h
    · next ho => simp [ho, all]
  · simp only [joint, methodSeparator]
    split <;> simp [all]
  · simp [joint, methodSeparator, all]

end Separators

namespace Entity

/-! ### One member running into another -/

/-- The text between the path of an entity's owner and its name. -/
def joint (x : Entity) : String := x.home.separators.joint x.ownerPath x.scope?

/-- The separator of one entity is a proper beginning of another's, and the rest of the other's is
how the name of the one begins that ends in the name of the other. -/
def RunsInto (x y : Entity) : Prop :=
  x.joint ≠ "" ∧ ∃ rest, rest ≠ "" ∧ y.joint = x.joint ++ rest ∧ x.name = rest ++ y.name

/-- The path of all but a root is that of the owner, a text in between, and the name. -/
theorem path_eq_joint {x : Entity} (hk : x.kind ≠ .root) :
    x.path = x.ownerPath ++ x.joint ++ x.name := by
  have htop : x.home.separators.namespacePath x.name x.ownerPath =
      x.ownerPath ++ x.home.separators.joint x.ownerPath none ++ x.name := by
    by_cases ho : x.ownerPath = "" <;>
      simp [Separators.namespacePath, Separators.joint, isTopLevel, ho]
  cases hf : x.form with
  | entry => simpa [path, joint, scope?, method?, hf] using htop
  | space isRoot tables =>
      cases isRoot with
      | true => exact absurd (kind_eq_root_iff.2 ⟨tables, hf⟩) hk
      | false => simpa [path, joint, scope?, method?, hf] using htop
  | method fields => simp [path, joint, scope?, method?, hf, Separators.methodPath,
      Separators.joint]

section Siblings

variable {config : Config} {x y : Entity}

/-- A member's path that another's runs into is that other's. -/
theorem RunsInto.path_eq (hkx : x.kind ≠ .root) (hky : y.kind ≠ .root)
    (ho : x.ownerPath = y.ownerPath) (h : x.RunsInto y) : x.path = y.path := by
  obtain ⟨-, rest, -, hjoint, hname⟩ := h
  rw [path_eq_joint hkx, path_eq_joint hky, ho, hjoint, hname]
  simp [String.append_assoc]

/-- Nothing runs into what has its name. -/
theorem RunsInto.name_ne (h : x.RunsInto y) : x.name ≠ y.name := by
  obtain ⟨-, rest, hne, -, hname⟩ := h
  intro he
  have hlen := congrArg String.length hname
  rw [he, String.length_append] at hlen
  exact hne (String.length_eq_zero_iff.1 (by omega))

/-- Where no separator begins another, nothing runs into anything. -/
theorem RunsInto.not_prefixFree (hhx : x.home.config = config) (hhy : y.home.config = config)
    (h : x.RunsInto y) : ¬ config.separators.PrefixFree := by
  obtain ⟨hx, rest, hne, hjoint, -⟩ := h
  intro hfree
  have hsx : x.home.separators = config.separators := congrArg Config.separators hhx
  have hsy : y.home.separators = config.separators := congrArg Config.separators hhy
  have hmx : x.joint ∈ config.separators.all := hsx ▸ Separators.joint_mem_all hx
  have hmy : y.joint ∈ config.separators.all := by
    refine hsy ▸ Separators.joint_mem_all (s := y.home.separators) ?_
    intro hempty
    have : x.joint ++ rest = "" := hjoint.symm.trans hempty
    simp_all
  have he := hfree x.joint hmx y.joint hmy ⟨rest.toList, by rw [hjoint, String.toList_append]⟩
  rw [← he] at hjoint
  exact hne (by simpa using hjoint.symm)

/-- Where the separator of one of two members continues that of the other, and the names make up
for it, the other runs into it. -/
theorem runsInto_of_rest (hhx : x.home.config = config) (hhy : y.home.config = config)
    (ho : x.ownerPath = y.ownerPath) (hkey : x.memberKey ≠ y.memberKey)
    (hname : config.separators.Unbroken x.name) {rest : String}
    (hjoint : y.joint = x.joint ++ rest) (hrest : x.name = rest ++ y.name) : x.RunsInto y := by
  have hs : x.home.separators = y.home.separators :=
    congrArg Config.separators (hhx.trans hhy.symm)
  have hsy : y.home.separators = config.separators := congrArg Config.separators hhy
  -- with nothing left over the two have one scope and one name
  have hne : rest ≠ "" := by
    rintro rfl
    rw [joint, joint, hs, ho, String.append_empty] at hjoint
    have hscope := Separators.joint_injective y.home.config.distinct y.ownerPath hjoint
    have hname : x.name = y.name := by simpa using hrest
    exact hkey (Prod.ext hname hscope.symm)
  refine ⟨fun hx => ?_, rest, hne, hjoint, hrest⟩
  -- without a separator of its own the one would have the other's within its name
  rw [hx, String.empty_append] at hjoint
  have hmem : rest ∈ config.separators.all := by
    rw [← hjoint] at hne ⊢
    exact hsy ▸ Separators.joint_mem_all hne
  exact hname.2 rest hmem ⟨[], y.name.toList, by simp [hrest]⟩

/-- **Two members of one owner that are listed under two keys, and whose names have no separator in
them, have one path exactly where one of them runs into the other.**  Under one name they never do,
and neither where no separator begins another. -/
theorem meets_sibling_iff (hkx : x.kind ≠ .root) (hky : y.kind ≠ .root)
    (hhx : x.home.config = config) (hhy : y.home.config = config)
    (ho : x.ownerPath = y.ownerPath) (hkey : x.memberKey ≠ y.memberKey)
    (hnx : config.separators.Unbroken x.name) (hny : config.separators.Unbroken y.name) :
    (x.path = y.path ↔ x.RunsInto y ∨ y.RunsInto x) ∧
      (x.name = y.name → x.path ≠ y.path) ∧
      (config.separators.PrefixFree → x.path ≠ y.path) := by
  have hiff : x.path = y.path ↔ x.RunsInto y ∨ y.RunsInto x := by
    constructor
    · intro h
      rw [path_eq_joint hkx, path_eq_joint hky, ho, String.append_assoc, String.append_assoc,
        String.append_right_inj] at h
      rcases Text.append_eq_append_cases h with ⟨rest, hj, hn⟩ | ⟨rest, hj, hn⟩
      · exact .inl (runsInto_of_rest hhx hhy ho hkey hnx hj hn)
      · exact .inr (runsInto_of_rest hhy hhx ho.symm hkey.symm hny hj hn)
    · rintro (h | h)
      · exact h.path_eq hkx hky ho
      · exact (h.path_eq hky hkx ho.symm).symm
  refine ⟨hiff, fun hn h => ?_, fun hfree h => ?_⟩
  · rcases hiff.1 h with h | h
    · exact h.name_ne hn
    · exact h.name_ne hn.symm
  · rcases hiff.1 h with h | h
    · exact h.not_prefixFree hhx hhy hfree
    · exact h.not_prefixFree hhy hhx hfree

/-- The class's `total` and the instances' `>total` of one namespace meet where `-` stands before
the methods of instances and `->` before those of classes. -/
theorem meets_sibling_iff_shop :
    let config : Config := { separators := ⟨"::", "->", "-"⟩ }
    let home : Registry := ⟨0, config⟩
    let member (name : String) (scope : Scope) : Entity :=
      { name, home, lineage := [⟨⟨1⟩, "Shop", false, home⟩, ⟨⟨0⟩, "", true, home⟩]
        form := .method { scope, visibility := .publicAccess } }
    (member ">total" .onInstance).RunsInto (member "total" .onClass) ∧
      (member "total" .onClass).path = (member ">total" .onInstance).path := by
  intro config home member
  have hruns : (member ">total" .onInstance).RunsInto (member "total" .onClass) :=
    ⟨by decide, ">", by decide, by decide, by decide⟩
  have hiff := (meets_sibling_iff (x := member "total" .onClass)
    (y := member ">total" .onInstance) (by decide) (by decide) rfl rfl rfl
    (by decide) (by decide +kernel) (by decide +kernel)).1
  exact ⟨hruns, hiff.2 (.inr hruns)⟩

/-- Two members of one owner with two keys, and without a separator in their names, may have one
path. -/
theorem siblings_may_meet :
    ¬ ∀ (config : Config) (x y : Entity), x.kind ≠ .root → y.kind ≠ .root →
      x.home.config = config → y.home.config = config → x.ownerPath = y.ownerPath →
      x.memberKey ≠ y.memberKey → config.separators.Unbroken x.name →
      config.separators.Unbroken y.name → x.path ≠ y.path := by
  intro h
  let home : Registry := ⟨0, { separators := ⟨"::", "->", "-"⟩ }⟩
  let member (name : String) (scope : Scope) : Entity :=
    { name, home, lineage := [⟨⟨1⟩, "Shop", false, home⟩, ⟨⟨0⟩, "", true, home⟩]
      form := .method { scope, visibility := .publicAccess } }
  exact h home.config (member "total" .onClass) (member ">total" .onInstance) (by decide)
    (by decide) rfl rfl rfl (by decide) (by decide +kernel) (by decide +kernel) (by decide +kernel)

end Siblings

end Entity

end DocCatalog
