/-
**Members of one name, asked for by name.**

A namespace can list up to three members of one name, and there are two ways to ask for a name: of
the namespace's list, which prefers a nested namespace, then a method of the instances, then one of
the class; and of the registry, which tries paths in the order of its separators.  In a registry in
step with its lists every path that is tried below a namespace is one slot of its list, so the two
can be compared slot by slot.

Below every namespace with a path the order is the same.  At the top level it is not: there the
methods of the class follow the separator of namespaces, which is tried before that of the
instances' methods, so the registry prefers the method of the class.

Main definitions:

* `Catalog.prospect`: the member of a name and a scope that a namespace may have.

Main results:

* `Catalog.Lockstep.get?_member`: what is held at the path of a member is what is listed;
* `Catalog.Lockstep.near_nested`, `Catalog.Lockstep.near_top`: the slots of a name in the order in
  which the registry tries them;
* `Manifest.child_resolved`: **both ways find the same member, but at the top level, where of two
  methods the registry finds that of the class**.
-/

import DocCatalog.Proofs.Manifest.Fresh
import DocCatalog.Proofs.Registry.Scoping

set_option autoImplicit false

namespace DocCatalog

namespace Catalog

variable {c : Catalog} {r : Registry} {e n : EntityId} {x : Entity} {path name : String}

/-! ### Members by their paths -/

/-- The path of an entity in its place is made from its owner's. -/
theorem Placed.path_eq_joint (hx : Placed r c x) (ho : x.owner? = some n)
    (hn : Stands r c n path) :
    x.path = path ++ r.separators.joint path x.scope? ++ x.name := by
  have hlin := hx.lineage
  rw [ho] at hlin
  have howner : x.ownerPath = path := (ownerPath_eq_path hn.isSpace hlin).trans hn.path_eq
  rw [Entity.path_eq_joint (kind_ne_root_of_scope hx.kind), Entity.joint, hx.home, howner]

/-- The member of a name and a scope that a namespace may have; without a scope, a namespace. -/
def prospect (c : Catalog) (r : Registry) (n : EntityId) (name : String) (scope? : Option Scope) :
    Entity where
  name
  home := r
  lineage := c.lineageOf (some n)
  form := match scope? with
    | some scope => .method { scope, visibility := r.config.visibility }
    | none => .space false {}

theorem scope?_prospect (scope? : Option Scope) :
    (c.prospect r n name scope?).scope? = scope? := by
  cases scope? <;> rfl

theorem placed_prospect (hn : Stands r c n path) (hname : r.separators.Plain name)
    (scope? : Option Scope) : Placed r c (c.prospect r n name scope?) where
  home := rfl
  kind := by
    cases scope? with
    | none => exact .inl rfl
    | some scope => exact .inr rfl
  plain := hname
  lineage := rfl
  owner := ⟨n, rfl, hn.knows, hn.isSpace, hn.home⟩

/-- **What is held at the path of a member is what the namespace lists.** -/
theorem Lockstep.get?_member (h : Lockstep r c) (hn : Stands r c n path)
    (hname : r.separators.Plain name) (scope? : Option Scope) :
    (c.entries r).get? (path ++ r.separators.joint path scope? ++ name) =
      (c.slots n).get? (name, scope?) := by
  have hy := placed_prospect hn hname scope?
  have hpath := hy.path_eq_joint rfl hn
  rw [scope?_prospect] at hpath
  refine Option.ext fun e => ⟨fun hget => ?_, fun hslot => ?_⟩
  · -- what is held there has the owner and the key of the member
    have hx := h.placed_of_get? hget
    have hp := h.keysHold.path_eq hget
    obtain ⟨howner, hkey⟩ := (h.same_place hx hy).1 (hp.trans hpath.symm)
    have hreg : c.isRegistered r e = true := by simpa [isRegistered, hp] using hget
    obtain ⟨m, hm, hslot⟩ :=
      (h.lock (h.wellFormed.knows_entry hget) hx.home (h.ne_root howner)).1 hreg
    obtain rfl : n = m := Option.some.inj (howner.symm.trans hm)
    rw [hkey, Entity.memberKey, scope?_prospect] at hslot
    exact hslot
  · have howner := h.slotsHold.owner?_eq hslot
    have hk := h.wellFormed.knows_slot hslot
    have hx := h.placed hk (h.owns hk howner hn.home) (h.ne_root howner)
    have hreg := (h.lock hk hx.home (h.ne_root howner)).2 (h.slotsHold.listed hslot)
    obtain ⟨hsame, hscope⟩ := Prod.mk.inj (h.slotsHold.memberKey_eq hslot)
    have hp := hx.path_eq_joint howner hn
    rw [hsame, hscope] at hp
    rw [← hp]
    exact of_decide_eq_true hreg

/-! ### Names where they are listed -/

/-- Without a scope the list of a namespace is asked for any member of the name. -/
theorem child_of_null (c : Catalog) (n : EntityId) (name : String) :
    c.child n (.text name) .null = .ok ((c.tables n).member? name) :=
  rfl

/-- A plain name does not begin with a separator. -/
theorem not_heads_of_plain (hname : r.separators.Plain name) : ¬ r.separators.Heads name := by
  rintro ⟨separator, hmem, hstart⟩
  have hne : separator.toList ≠ [] := by
    obtain ⟨hn, hc, hi, -⟩ := r.config.distinct
    simp only [Separators.all, List.mem_cons, List.not_mem_nil, or_false] at hmem
    rcases hmem with rfl | rfl | rfl <;> simpa
  have hchars : ∀ ch ∈ separator.toList, ch ∈ r.separators.chars := by
    intro ch hch
    simp only [Separators.all, List.mem_cons, List.not_mem_nil, or_false] at hmem
    rcases hmem with rfl | rfl | rfl <;> simp [Separators.chars, hch]
  obtain ⟨ch, hch⟩ := List.exists_mem_of_ne_nil _ hne
  exact hname.2 ch (hstart.subset hch) (hchars ch hch)

theorem candidates_of_plain (hname : r.separators.Plain name) :
    candidates (searchSeparators r) path name =
      if path = "" then name :: (searchSeparators r).map fun s => s ++ name
      else (searchSeparators r).map fun s => path ++ s ++ name := by
  rw [candidates, if_neg (mt any_isPrefixOf_iff.1 (not_heads_of_plain hname))]

theorem findSome?_cons_eq_or {α β : Type} (f : α → Option β) (x : α) (l : List α) :
    (x :: l).findSome? f = (f x).or (l.findSome? f) := by
  rw [List.findSome?_cons]
  cases f x <;> rfl

/-- Below a path what is tried are the slots of the name, in the order of the list. -/
theorem Lockstep.near_nested (h : Lockstep r c) (hn : Stands r c n path) (hpath : path ≠ "")
    (hname : r.separators.Plain name) :
    (candidates (searchSeparators r) path name).findSome? (c.entries r).get? =
      (c.tables n).member? name := by
  have hspace := h.get?_member hn hname none
  have hinstance := h.get?_member hn hname (some .onInstance)
  have hclass := h.get?_member hn hname (some .onClass)
  simp only [Separators.joint, Separators.methodSeparator, isTopLevel, hpath, decide_false,
    Bool.false_eq_true, if_false] at hspace hinstance hclass
  rw [candidates_of_plain hname, if_neg hpath]
  simp [searchSeparators, findSome?_cons_eq_or, hspace, hinstance, hclass, Tables.member?, slots_eq]

/-- At the top level the slot of the class comes before that of the instances, and what follows the
separator of the methods of classes comes last. -/
theorem Lockstep.near_top (h : Lockstep r c) (hname : r.separators.Plain name) :
    (candidates (searchSeparators r) "" name).findSome? (c.entries r).get? =
      ((c.tables (c.root r)).members.get? (name, none)).or
        (((c.tables (c.root r)).members.get? (name, some .onClass)).or
          (((c.tables (c.root r)).members.get? (name, some .onInstance)).or
            ((c.entries r).get? (r.separators.onClass ++ name)))) := by
  have hn : Stands r c (c.root r) "" := ⟨h.opened.knows_root, isSpace_iff.2 (.inr h.root_kind),
    h.opened.home_root, h.path_root⟩
  have hspace := h.get?_member hn hname none
  have hinstance := h.get?_member hn hname (some .onInstance)
  have hclass := h.get?_member hn hname (some .onClass)
  simp only [Separators.joint, Separators.methodSeparator, isTopLevel, decide_true, if_true,
    String.empty_append, slots_eq] at hspace hinstance hclass
  rw [candidates_of_plain hname, if_pos rfl]
  simp [searchSeparators, findSome?_cons_eq_or, hspace, hinstance, hclass]

/-- Below a path the registry finds the member that the list finds. -/
theorem Lockstep.resolve_nested (h : Lockstep r c) (hn : Stands r c n path) (hpath : path ≠ "")
    (hname : r.separators.Plain name) (hchild : (c.tables n).member? name = some e) :
    c.resolve r (some n) name = some e := by
  refine resolve_of_near ?_
  rw [hn.path_eq, h.near_nested hn hpath hname]
  exact hchild

/-- At the top level the registry prefers the method of the class to that of the instances. -/
theorem Lockstep.resolve_top (h : Lockstep r c) (hname : r.separators.Plain name)
    (hchild : (c.tables (c.root r)).member? name = some e) :
    c.resolve r (some (c.root r)) name =
      if (c.tables (c.root r)).members.get? (name, none) = none then
        ((c.tables (c.root r)).members.get? (name, some .onClass)).or (some e)
      else some e := by
  have hnear := h.near_top hname
  rw [← h.path_root] at hnear
  rw [Tables.member?] at hchild
  cases hs : (c.tables (c.root r)).members.get? (name, none) with
  | some x =>
      rw [hs, Option.some_or] at hchild
      rw [if_neg (Option.some_ne_none x), ← hchild]
      exact resolve_of_near (by rw [hnear, hs, Option.some_or])
  | none =>
      rw [if_pos rfl]
      rw [hs, Option.none_or] at hchild hnear
      cases hc : (c.tables (c.root r)).members.get? (name, some .onClass) with
      | some x =>
          rw [Option.some_or]
          exact resolve_of_near (by rw [hnear, hc, Option.some_or])
      | none =>
          -- without a method of the class the list finds that of the instances
          rw [hc, Option.or_none] at hchild
          exact resolve_of_near (by rw [hnear, hc, hchild]; rfl)

/-- What a namespace of a registry in step finds in its list by name has a plain name. -/
theorem Lockstep.plain_of_member? (h : Lockstep r c) (hhome : (c.entity n).home = r)
    (hchild : (c.tables n).member? name = some e) : r.separators.Plain name := by
  obtain ⟨scope?, hslot⟩ : ∃ scope?, (c.slots n).get? (name, scope?) = some e := by
    simp only [Tables.member?, Option.or_eq_some_iff, ← slots_eq] at hchild
    rcases hchild with hs | ⟨-, hs | ⟨-, hs⟩⟩ <;> exact ⟨_, hs⟩
  have howner := h.slotsHold.owner?_eq hslot
  have hknown := h.wellFormed.knows_slot hslot
  have hx := h.placed hknown (h.owns hknown howner hhome) (h.ne_root howner)
  have hname : (c.entity e).name = name := congrArg Prod.fst (h.slotsHold.memberKey_eq hslot)
  exact hname ▸ hx.plain

end Catalog

namespace Manifest

open Catalog

variable {c : Catalog} {data : Value}

/-- **Where the list of a namespace finds a name, the registry finds the same**, in every registry
that a manifest with plain names was loaded into: a nested namespace before a method of the
instances before one of the class.  At the top level alone, and where no namespace has the name, the
registry finds the method of the class instead, if there is one. -/
theorem child_resolved {s : Session} (hs : s.Reachable) (config : Config)
    (hclean : ∀ part, ∀ entry ∈ entriesIn data part,
      Clean (s.catalog.openRegistry config).1 part entry)
    (hok : load (s.catalog.openRegistry config).1 data (s.catalog.openRegistry config).2 =
      (.ok (), c)) :
    let r := (s.catalog.openRegistry config).1
    ∀ n name e, c.Knows n → (c.entity n).isSpace = true → (c.entity n).home = r →
      c.child n (.text name) .null = .ok (some e) →
      c.resolve r (some n) name =
        if n = c.root r ∧ (c.tables n).members.get? (name, none) = none then
          ((c.tables n).members.get? (name, some .onClass)).or (some e)
        else some e := by
  intro r n name e hk hspace hhome hchild
  have h : Lockstep r c := (Loaded.of_load hs hclean hok).lockstep
  rw [child_of_null] at hchild
  have hmember : (c.tables n).member? name = some e := Except.ok.inj hchild
  have hname := h.plain_of_member? hhome hmember
  by_cases hroot : n = c.root r
  · subst hroot
    rw [h.resolve_top hname hmember]
    simp only [true_and]
  · rw [if_neg fun hn => hroot hn.1]
    have hpath : c.path n ≠ "" := h.path_ne_empty (h.placed hk hhome hroot)
    exact h.resolve_nested ⟨hk, hspace, hhome, rfl⟩ hpath hname hmember

/-- Two methods of one name in a namespace, and two at the top level. -/
theorem child_resolved_runs :
    let entry (space scope : String) : Value :=
      .dict [("namespace", .text space), ("name", .text "run"), ("scope", .text scope)]
    let data : Value := .dict [("methods", .list [entry "Shop" "class", entry "Shop" "instance",
      entry "" "instance", entry "" "class"])]
    let r := (({} : Catalog).openRegistry {}).1
    let c := (load r data (({} : Catalog).openRegistry {}).2).2
    c.paths r = ["Shop", "Shop.run", "Shop#run", "#run", "::run"] ∧
      c.resolve r (some ⟨1⟩) "run" = some ⟨3⟩ ∧ c.resolve r (some ⟨0⟩) "run" = some ⟨5⟩ := by
  intro entry data r c
  have hok : (load r data (({} : Catalog).openRegistry {}).2).1.toBool = true := by decide +kernel
  obtain ⟨_, hrun⟩ := Action.exists_eq_ok hok
  have hclean : ∀ part, ∀ entry ∈ entriesIn data part, Clean r part entry := by
    intro part
    cases part <;> decide +kernel
  have hall := child_resolved (s := {}) .refl {} hclean hrun
  have hshop : (c.tables ⟨1⟩).member? "run" = some ⟨3⟩ := by decide +kernel
  have htop : (c.tables ⟨0⟩).member? "run" = some ⟨4⟩ := by decide +kernel
  have hinner := hall ⟨1⟩ "run" ⟨3⟩ (by decide +kernel) (by decide +kernel) (by decide +kernel)
    ((c.child_of_null _ _).trans (congrArg Except.ok hshop))
  have houter := hall ⟨0⟩ "run" ⟨4⟩ (by decide +kernel) (by decide +kernel) (by decide +kernel)
    ((c.child_of_null _ _).trans (congrArg Except.ok htop))
  exact ⟨by decide +kernel, hinner.trans (by decide +kernel), houter.trans (by decide +kernel)⟩

/-- At the top level the two ways do not find the same method. -/
theorem class_method_found_first :
    ¬ ∀ (config : Config) (data : Value) (c : Catalog),
      let r := (({} : Catalog).openRegistry config).1
      (∀ part, ∀ entry ∈ entriesIn data part, Clean r part entry) →
      load r data (({} : Catalog).openRegistry config).2 = (.ok (), c) →
      ∀ n name e, c.Knows n → (c.entity n).isSpace = true → (c.entity n).home = r →
        c.child n (.text name) .null = .ok (some e) → c.resolve r (some n) name = some e := by
  intro hall
  let data : Value := .dict [("methods", .list [.dict [("name", .text "run")],
    .dict [("name", .text "run"), ("scope", .text "class")]])]
  have hok : (load ⟨0, {}⟩ data (({} : Catalog).openRegistry {}).2).1.toBool = true := by
    decide +kernel
  obtain ⟨_, hrun⟩ := Action.exists_eq_ok hok
  have hclean : ∀ part, ∀ entry ∈ entriesIn data part, Clean ⟨0, {}⟩ part entry := by
    intro part
    cases part <;> decide +kernel
  let c := (load ⟨0, {}⟩ data (({} : Catalog).openRegistry {}).2).2
  have hmember : (c.tables ⟨0⟩).member? "run" = some ⟨1⟩ := by decide +kernel
  have hsame := hall {} data c hclean hrun ⟨0⟩ "run" ⟨1⟩ (by decide +kernel) (by decide +kernel)
    (by decide +kernel) ((c.child_of_null _ _).trans (congrArg Except.ok hmember))
  exact absurd hsame (by decide +kernel)

end Manifest

end DocCatalog
