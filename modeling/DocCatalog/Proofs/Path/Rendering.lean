/-
**Canonical paths identify entities.**

A path is the rendering of an identity: the names of the owners from the top level down, a name,
and, for a method, a scope.  Three separators of any length, which may overlap each other, join
these into one text, with other rules at the top level than below it.  For names that share no
character with a separator the rendering can be undone from its end: the last run of characters that
no separator has is the name, the run of separator characters before it is one separator, and what
is left is the path of the owner.

Main definitions:

* `Separators.Plain`: a name that is not empty and shares no character with a separator;
* `Separators.spacePath`, `Separators.render`: the paths of a chain of namespaces and of an
  identity;
* `ownerNames`: the names of a chain of owners, from the top level down;
* `Entity.PlainIn`: an entity of a registry whose name and owners' names are plain.

Main results:

* `Separators.render_injective`: **plain identities with one path are one**;
* `Entity.path_eq_render`: the path of an entity is the rendering of its identity;
* `Entity.path_eq_path_iff`: two plain entities of a registry have one path exactly when their
  owners and their member keys are the same.
-/

import DocCatalog.Catalog.Entity
import Mathlib.Data.List.Basic
import Mathlib.Data.List.Induction

set_option autoImplicit false

namespace DocCatalog

/-! ### Runs of characters -/

/-- A list that ends outside a class of characters, followed by one within the class: the place
where the second begins is settled by the whole. -/
theorem append_inj_of_runs (p : Char → Prop) {xs xs' ys ys' : List Char}
    (hxs : ∀ c ∈ xs.getLast?, ¬ p c) (hxs' : ∀ c ∈ xs'.getLast?, ¬ p c)
    (hys : ∀ c ∈ ys, p c) (hys' : ∀ c ∈ ys', p c) (h : xs ++ ys = xs' ++ ys') :
    xs = xs' ∧ ys = ys' := by
  -- what one first part has more than the other lies within the class, so it is empty
  have hnil : ∀ {zs zs' ws : List Char}, (∀ c ∈ (zs ++ ws).getLast?, ¬ p c) →
      (∀ c ∈ ws ++ zs', p c) → ws = [] := by
    intro zs zs' ws hlast hin
    rcases List.eq_nil_or_concat ws with rfl | ⟨init, c, rfl⟩
    · rfl
    · exact absurd (hin c (by simp)) (hlast c (by simp))
  rcases List.append_eq_append_iff.1 h with ⟨ws, rfl, rfl⟩ | ⟨ws, rfl, rfl⟩
  · obtain rfl := hnil hxs' hys
    simp
  · obtain rfl := hnil hxs hys'
    simp

namespace Separators

/-! ### Plain names -/

/-- The characters of the separators. -/
def chars (s : Separators) : List Char :=
  s.nested.toList ++ s.onClass.toList ++ s.onInstance.toList

/-- A name that is not empty and shares no character with a separator. -/
def Plain (s : Separators) (name : String) : Prop :=
  name ≠ "" ∧ ∀ c ∈ name.toList, c ∉ s.chars

instance (s : Separators) (name : String) : Decidable (s.Plain name) :=
  @instDecidableAnd _ _ _ (List.decidableBAll (fun c => c ∉ s.chars) name.toList)

/-! ### Renderings -/

/-- The path of the namespace that is reached through some names, from the top level down. -/
def spacePath (s : Separators) (names : List String) : String :=
  names.foldl (fun path name => s.namespacePath name path) ""

/-- The path of what is called by a name, and by a scope if it is a method, below some owners. -/
def render (s : Separators) (owners : List String) (name : String) (scope? : Option Scope) :
    String :=
  match scope? with
  | some scope => s.methodPath name (s.spacePath owners) scope
  | none => s.namespacePath name (s.spacePath owners)

/-- The text between the path of an owner and a name. -/
def joint (s : Separators) (owner : String) : Option Scope → String
  | some scope => s.methodSeparator scope owner
  | none => if isTopLevel owner then "" else s.nested

@[simp] theorem spacePath_nil (s : Separators) : s.spacePath [] = "" := rfl

@[simp] theorem spacePath_concat (s : Separators) (names : List String) (name : String) :
    s.spacePath (names ++ [name]) = s.namespacePath name (s.spacePath names) := by
  simp [spacePath]

theorem render_none (s : Separators) (owners : List String) (name : String) :
    s.render owners name none = s.spacePath (owners ++ [name]) := by simp [render]

theorem render_eq (s : Separators) (owners : List String) (name : String) (scope? : Option Scope) :
    s.render owners name scope? =
      s.spacePath owners ++ s.joint (s.spacePath owners) scope? ++ name := by
  cases scope? with
  | some scope => rfl
  | none =>
      simp only [render, namespacePath, joint]
      by_cases h : s.spacePath owners = "" <;> simp [h, isTopLevel]

/-- What stands between the path of an owner and a name consists of separator characters. -/
theorem joint_chars (s : Separators) (owner : String) (scope? : Option Scope) :
    ∀ c ∈ (s.joint owner scope?).toList, c ∈ s.chars := by
  intro c hc
  rcases scope? with _ | scope
  · simp only [joint] at hc
    split at hc <;> simp_all [chars]
  · cases scope with
    | onInstance => simp_all [joint, methodSeparator, chars]
    | onClass =>
        simp only [joint, methodSeparator] at hc
        split at hc <;> simp_all [chars]

/-- Below one owner the text before the name tells the kinds of member apart. -/
theorem joint_injective {s : Separators} (hs : s.Distinct) (owner : String)
    {scope? scope?' : Option Scope} (h : s.joint owner scope? = s.joint owner scope?') :
    scope? = scope?' := by
  obtain ⟨hn, hc, hi, hin, hic, hcn⟩ := hs
  by_cases ho : owner = "" <;> rcases scope? with _ | _ | _ <;> rcases scope?' with _ | _ | _ <;>
    simp_all [joint, methodSeparator, isTopLevel, Ne.symm hn, Ne.symm hi, Ne.symm hin,
      Ne.symm hic, Ne.symm hcn]

/-! ### Undoing a rendering -/

theorem joint_ne_empty {s : Separators} (hs : s.Distinct) {owner : String} {scope? : Option Scope}
    (h : owner ≠ "" ∨ scope? ≠ none) : s.joint owner scope? ≠ "" := by
  obtain ⟨hn, hc, hi, -⟩ := hs
  rcases scope? with _ | _ | _
  · simp_all [joint, isTopLevel]
  · simp only [joint, methodSeparator]
    split <;> assumption
  · simpa [joint, methodSeparator] using hi

/-- The path of plain names does not end in a separator character. -/
theorem getLast?_spacePath {s : Separators} {names : List String}
    (h : ∀ name ∈ names, s.Plain name) :
    ∀ c ∈ (s.spacePath names).toList.getLast?, c ∉ s.chars := by
  intro c hc
  rcases List.eq_nil_or_concat names with rfl | ⟨owners, name, rfl⟩
  · simp at hc
  · have hname : s.Plain name := h name (by simp)
    have hne : name.toList ≠ [] := by simpa using hname.1
    rw [List.concat_eq_append, ← render_none, render_eq, String.toList_append,
      List.getLast?_append_of_ne_nil _ hne] at hc
    exact hname.2 c (List.mem_of_getLast? hc)

/-- What comes before the name of an identity is empty or ends in a separator character. -/
theorem getLast?_before {s : Separators} (hs : s.Distinct) (owner : String)
    (scope? : Option Scope) :
    ∀ c ∈ (owner.toList ++ (s.joint owner scope?).toList).getLast?, ¬ c ∉ s.chars := by
  intro c hc
  rw [not_not]
  by_cases hj : s.joint owner scope? = ""
  · have ho : owner = "" := by
      by_contra ho
      exact joint_ne_empty hs (.inl ho) hj
    subst ho
    simp [hj] at hc
  · have hne : (s.joint owner scope?).toList ≠ [] := by simpa using hj
    rw [List.getLast?_append_of_ne_nil _ hne] at hc
    exact joint_chars s owner scope? c (List.mem_of_getLast? hc)

/-- The path of the owner, the name and the scope can be read off a rendering. -/
theorem render_parts {s : Separators} (hs : s.Distinct) {owners owners' : List String}
    {name name' : String} {scope? scope?' : Option Scope}
    (ho : ∀ o ∈ owners, s.Plain o) (ho' : ∀ o ∈ owners', s.Plain o)
    (hn : s.Plain name) (hn' : s.Plain name')
    (h : s.render owners name scope? = s.render owners' name' scope?') :
    s.spacePath owners = s.spacePath owners' ∧ name = name' ∧ scope? = scope?' := by
  rw [render_eq, render_eq, ← String.toList_inj] at h
  simp only [String.toList_append] at h
  -- first the name is cut off, then the separator before it
  obtain ⟨hbefore, hname⟩ := append_inj_of_runs (· ∉ s.chars) (getLast?_before hs _ _)
    (getLast?_before hs _ _) hn.2 hn'.2 h
  obtain ⟨hpath, hjoint⟩ := append_inj_of_runs (· ∈ s.chars) (getLast?_spacePath ho)
    (getLast?_spacePath ho') (joint_chars s _ _) (joint_chars s _ _) hbefore
  rw [String.toList_inj] at hpath hjoint hname
  rw [hpath] at hjoint
  exact ⟨hpath, hname, joint_injective hs _ hjoint⟩

theorem spacePath_ne_empty {s : Separators} {names : List String} (hne : names ≠ [])
    (h : ∀ name ∈ names, s.Plain name) : s.spacePath names ≠ "" := by
  rcases List.eq_nil_or_concat names with rfl | ⟨owners, name, rfl⟩
  · exact absurd rfl hne
  · have hname : name ≠ "" := (h name (by simp)).1
    rw [List.concat_eq_append, ← render_none, render_eq]
    simp [hname]

/-- A chain of plain names is settled by its path. -/
theorem spacePath_injective {s : Separators} (hs : s.Distinct) :
    ∀ {names names' : List String}, (∀ n ∈ names, s.Plain n) → (∀ n ∈ names', s.Plain n) →
      s.spacePath names = s.spacePath names' → names = names' := by
  intro names
  -- induction from the end, where the path is read
  induction names using List.reverseRecOn with
  | nil =>
      intro names' _ h' h
      by_contra hne
      exact spacePath_ne_empty (Ne.symm hne) h' h.symm
  | append_singleton owners name ih =>
      intro names' hp hp' h
      rcases List.eq_nil_or_concat names' with rfl | ⟨owners', name', rfl⟩
      · exact absurd h (spacePath_ne_empty (by simp) hp)
      · rw [List.concat_eq_append] at hp' h ⊢
        simp only [List.mem_append, List.mem_singleton] at hp hp'
        rw [← render_none, ← render_none] at h
        have ho : ∀ o ∈ owners, s.Plain o := fun o m => hp o (.inl m)
        have ho' : ∀ o ∈ owners', s.Plain o := fun o m => hp' o (.inl m)
        obtain ⟨hpath, rfl, -⟩ :=
          render_parts hs ho ho' (hp name (.inr rfl)) (hp' name' (.inr rfl)) h
        rw [ih ho ho' hpath]

/-- **Plain identities with one path are one.** -/
theorem render_injective {s : Separators} (hs : s.Distinct) {owners owners' : List String}
    {name name' : String} {scope? scope?' : Option Scope}
    (ho : ∀ o ∈ owners, s.Plain o) (ho' : ∀ o ∈ owners', s.Plain o)
    (hn : s.Plain name) (hn' : s.Plain name')
    (h : s.render owners name scope? = s.render owners' name' scope?') :
    owners = owners' ∧ name = name' ∧ scope? = scope?' := by
  obtain ⟨hpath, hname, hscope⟩ := render_parts hs ho ho' hn hn' h
  exact ⟨spacePath_injective hs ho ho' hpath, hname, hscope⟩

end Separators

/-! ### Entities -/

/-- The names of a chain of owners, from the top level down; the root has none, and what is above a
root does not count. -/
def ownerNames : List Ancestor → List String
  | [] => []
  | a :: rest => if a.isRoot then [] else ownerNames rest ++ [a.name]

theorem lineagePath_eq_spacePath {s : Separators} {l : List Ancestor}
    (h : ∀ a ∈ l, a.home.separators = s) : lineagePath l = s.spacePath (ownerNames l) := by
  induction l with
  | nil => rfl
  | cons a rest ih =>
      have ha : a.home.separators = s := h a (by simp)
      have hrest := ih fun b hb => h b (by simp [hb])
      by_cases hr : a.isRoot = true
      · simp [lineagePath, ownerNames, hr]
      · simp [lineagePath, ownerNames, hr, ha, hrest]

theorem mem_ownerNames {l : List Ancestor} {name : String} (h : name ∈ ownerNames l) :
    ∃ a ∈ l, a.isRoot = false ∧ a.name = name := by
  induction l with
  | nil => simp [ownerNames] at h
  | cons a rest ih =>
      by_cases hr : a.isRoot = true
      · simp [ownerNames, hr] at h
      · simp only [ownerNames, hr, Bool.false_eq_true, if_false, List.mem_append,
          List.mem_singleton] at h
        rcases h with h | rfl
        · obtain ⟨b, hb, hb'⟩ := ih h
          exact ⟨b, by simp [hb], hb'⟩
        · exact ⟨a, by simp, by simpa using hr, rfl⟩

namespace Entity

/-- An entity of a registry, owned within it, whose name and owners' names are plain.  Roots, which
are made without a name and without owners, are excepted. -/
structure PlainIn (r : Registry) (x : Entity) : Prop where
  home : x.home = r
  owners_home : ∀ a ∈ x.lineage, a.home = r
  owners_plain : ∀ a ∈ x.lineage, a.isRoot = false → r.separators.Plain a.name
  plain : x.kind ≠ .root → r.separators.Plain x.name
  root : x.kind = .root → x.name = "" ∧ x.lineage = []

theorem kind_eq_root_iff {x : Entity} : x.kind = .root ↔ ∃ t, x.form = .space true t := by
  cases hf : x.form with
  | entry => simp [kind, hf]
  | space isRoot t => cases isRoot <;> simp [kind, hf]
  | method fields => simp [kind, hf]

theorem path_of_root {x : Entity} (h : x.kind = .root) : x.path = "" := by
  obtain ⟨t, hf⟩ := kind_eq_root_iff.1 h
  simp [path, hf]

theorem memberKey_of_root {x : Entity} (h : x.kind = .root) : x.memberKey = (x.name, none) := by
  obtain ⟨t, hf⟩ := kind_eq_root_iff.1 h
  simp [memberKey, scope?, method?, hf]

/-- The path of an entity is the rendering of its identity. -/
theorem path_eq_render {r : Registry} {x : Entity} (hk : x.kind ≠ .root) (hh : x.home = r)
    (ho : ∀ a ∈ x.lineage, a.home = r) :
    x.path = r.separators.render (ownerNames x.lineage) x.name x.scope? := by
  have hp : x.ownerPath = r.separators.spacePath (ownerNames x.lineage) :=
    lineagePath_eq_spacePath fun a ha => by rw [ho a ha]
  unfold kind at hk
  unfold path scope? method?
  split at hk
  · next hf => simp [hf, hh, hp, Separators.render]
  · next isRoot tables hf =>
      cases isRoot with
      | true => simp at hk
      | false => simp [hf, hh, hp, Separators.render]
  · next fields hf => simp [hf, hh, hp, Separators.render]

namespace PlainIn

variable {r : Registry} {x y : Entity}

theorem ownerNames_plain (h : x.PlainIn r) : ∀ o ∈ ownerNames x.lineage, r.separators.Plain o := by
  intro o ho
  obtain ⟨a, ha, hr, rfl⟩ := mem_ownerNames ho
  exact h.owners_plain a ha hr

theorem path_eq (h : x.PlainIn r) (hk : x.kind ≠ .root) :
    x.path = r.separators.render (ownerNames x.lineage) x.name x.scope? :=
  path_eq_render hk h.home h.owners_home

/-- Only the root has the empty path. -/
theorem path_eq_empty_iff (h : x.PlainIn r) : x.path = "" ↔ x.kind = .root := by
  constructor
  · intro he
    by_contra hk
    rw [h.path_eq hk, Separators.render_eq] at he
    exact (h.plain hk).1 (by simpa using he : _ ∧ _).2
  · exact path_of_root

theorem path_ne_of_root (hy : y.PlainIn r) (hkx : x.kind = .root) (hky : y.kind ≠ .root) :
    x.path ≠ y.path := by
  intro h
  exact hky (hy.path_eq_empty_iff.1 (h.symm.trans (path_of_root hkx)))

theorem memberKey_ne_of_root (hx : x.PlainIn r) (hy : y.PlainIn r) (hkx : x.kind = .root)
    (hky : y.kind ≠ .root) :
    ¬ (ownerNames x.lineage = ownerNames y.lineage ∧ x.memberKey = y.memberKey) := by
  rintro ⟨-, hk⟩
  have hn : x.name = y.name := congrArg Prod.fst hk
  exact (hy.plain hky).1 (hn.symm.trans (hx.root hkx).1)

end PlainIn

/-- Two plain entities of a registry have one path exactly when the names of their owners and their
member keys are the same; a missing owner counts as the root. -/
theorem path_eq_path_iff {r : Registry} {x y : Entity} (hx : x.PlainIn r) (hy : y.PlainIn r) :
    x.path = y.path ↔
      ownerNames x.lineage = ownerNames y.lineage ∧ x.memberKey = y.memberKey := by
  by_cases hkx : x.kind = .root
  · by_cases hky : y.kind = .root
    · obtain ⟨hnx, hlx⟩ := hx.root hkx
      obtain ⟨hny, hly⟩ := hy.root hky
      simp [path_of_root, memberKey_of_root, hkx, hky, hnx, hny, hlx, hly]
    · exact iff_of_false (hy.path_ne_of_root hkx hky) (hx.memberKey_ne_of_root hy hkx hky)
  · by_cases hky : y.kind = .root
    · exact iff_of_false (fun h => hx.path_ne_of_root hky hkx h.symm)
        fun h => hy.memberKey_ne_of_root hx hky hkx ⟨h.1.symm, h.2.symm⟩
    · rw [hx.path_eq hkx, hy.path_eq hky]
      constructor
      · intro h
        obtain ⟨ho, hn, hs⟩ := Separators.render_injective r.config.distinct hx.ownerNames_plain
          hy.ownerNames_plain (hx.plain hkx) (hy.plain hky) h
        exact ⟨ho, Prod.ext hn hs⟩
      · rintro ⟨ho, hk⟩
        obtain ⟨hn, hs⟩ := Prod.mk.inj hk
        rw [ho, hn, hs]

/-- A method of the class and one of the instances, of one name and with the same owners, have two
paths. -/
theorem path_ne_path_of_scopes :
    let r : Registry := default
    let owners : List Ancestor :=
      [⟨⟨2⟩, "Cart", false, r⟩, ⟨⟨1⟩, "Shop", false, r⟩, ⟨⟨0⟩, "", true, r⟩]
    let member (scope : Scope) : Entity :=
      { name := "total", home := r, lineage := owners
        form := .method { scope, visibility := .publicAccess } }
    (member .onClass).PlainIn r ∧ (member .onInstance).PlainIn r ∧
      (member .onClass).path ≠ (member .onInstance).path := by
  intro r owners member
  have hp : ∀ scope, (member scope).PlainIn r := by
    intro scope
    cases scope <;>
      exact ⟨rfl, by decide, by decide +kernel, fun _ => by decide +kernel, fun h => by cases h⟩
  refine ⟨hp .onClass, hp .onInstance, fun h => ?_⟩
  obtain ⟨-, hk⟩ := (path_eq_path_iff (hp .onClass) (hp .onInstance)).1 h
  exact absurd hk (by decide +kernel)

end Entity

end DocCatalog
