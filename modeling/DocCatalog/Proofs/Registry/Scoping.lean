/-
**What a name means from inside a namespace.**

A name is looked for in the namespace that it is used in, then in the one that encloses that, and so
on outward; the root of the registry comes last, also where the owners end in a namespace that
stands alone or in another root.  In each namespace the name may denote several paths: with a
separator of its own the one that it spells out, and else one for each separator, to which at the
top level the name itself is added.  The first namespace in which one of them is taken decides.

So every path finds what is held at it, from everywhere, and what is held is found by its name from
where it belongs.  What is found is settled by the owners, which never change, and by the paths that
are taken; so it is lost only where a path becomes vacant.

Main definitions:

* `Separators.Denotes`: the paths that a name may denote below a path;
* `Catalog.Outward`: the namespaces from one outward, up to the root of a registry;
* `Catalog.Misses`, `Catalog.Hits`: none or one of the paths that a name may denote is taken;
* `Operation.OnlyAdds`, `Catalog.HoldsOn`: an operation that makes no path of a registry vacant, and
  what a registry still has after such operations.

Main results:

* `Catalog.Outward.searchPaths_eq`: a name is looked for along the namespaces from one outward;
* `Catalog.Outward.resolve_eq_none_iff`, `Catalog.Outward.of_resolve`: the nearest namespace decides;
* `Session.names_found_outward`: **what names mean, in every session**.
-/

import DocCatalog.Proofs.Path.Siblings
import DocCatalog.Proofs.Registry.Bookkeeping
import DocCatalog.Proofs.Registry.Keys
import DocCatalog.Proofs.Registry.Rescoping

set_option autoImplicit false

namespace DocCatalog

/-! ### The paths that a name may denote -/

namespace Separators

/-- A name begins with a separator. -/
def Heads (s : Separators) (name : String) : Prop :=
  ∃ separator ∈ s.all, separator.toList <+: name.toList

instance (s : Separators) (name : String) : Decidable (s.Heads name) :=
  inferInstanceAs (Decidable (∃ separator ∈ s.all, separator.toList <+: name.toList))

/-- A path is one that a name may denote below another path: a name that begins with a separator
goes on from there, any other follows one of the separators, and at the top level it may also be the
path itself. -/
def Denotes (s : Separators) (base name path : String) : Prop :=
  if s.Heads name then path = base ++ name
  else (base = "" ∧ path = name) ∨ ∃ separator ∈ s.all, path = base ++ separator ++ name

/-- At the top level a path denotes itself. -/
theorem denotes_self (s : Separators) (p : String) : s.Denotes "" p p := by
  unfold Denotes
  split
  · simp
  · exact .inl ⟨rfl, rfl⟩

end Separators

namespace Catalog

variable {c c' : Catalog} {r : Registry} {e m n : EntityId} {base name p : String}
  {chain : List EntityId}

theorem mem_searchSeparators {separator : String} :
    separator ∈ searchSeparators r ↔ separator ∈ r.separators.all := by
  simp only [searchSeparators, Separators.all, List.mem_cons, List.not_mem_nil, or_false]
  tauto

theorem any_isPrefixOf_iff :
    ((searchSeparators r).any fun s => s.toList.isPrefixOf name.toList) = true ↔
      r.separators.Heads name := by
  simp only [List.any_eq_true, List.isPrefixOf_iff_prefix, mem_searchSeparators, Separators.Heads]

/-- What is tried are the paths that the name may denote. -/
theorem mem_candidates :
    p ∈ candidates (searchSeparators r) base name ↔ r.separators.Denotes base name p := by
  unfold candidates Separators.Denotes
  by_cases hname : r.separators.Heads name
  · simp [any_isPrefixOf_iff.2 hname, hname]
  · rw [if_neg (mt any_isPrefixOf_iff.1 hname), if_neg hname]
    by_cases hbase : base = ""
    · simp [hbase, mem_searchSeparators, eq_comm]
    · simp [hbase, mem_searchSeparators, eq_comm]

/-- None of the paths that a name may denote below a path is taken. -/
def Misses (c : Catalog) (r : Registry) (base name : String) : Prop :=
  ∀ p, r.separators.Denotes base name p → (c.entries r).get? p = none

/-- One of the paths that a name may denote below a path is an entity's. -/
def Hits (c : Catalog) (r : Registry) (base name : String) (e : EntityId) : Prop :=
  ∃ p, r.separators.Denotes base name p ∧ (c.entries r).get? p = some e

theorem findSome?_candidates_eq_none_iff :
    (candidates (searchSeparators r) base name).findSome? (c.entries r).get? = none ↔
      c.Misses r base name := by
  simp only [List.findSome?_eq_none_iff, mem_candidates, Misses]

theorem hits_of_findSome?_candidates
    (h : (candidates (searchSeparators r) base name).findSome? (c.entries r).get? = some e) :
    c.Hits r base name e := by
  obtain ⟨p, hmem, hget⟩ := List.exists_of_findSome?_eq_some h
  exact ⟨p, mem_candidates.1 hmem, hget⟩

/-! ### From a namespace outward -/

theorem WellFormed.path_root (hc : c.WellFormed) (ho : c.Opened r) : c.path (c.root r) = "" :=
  Entity.path_of_root (hc.root ho.lt).2

/-- The namespaces from one outward: its owner, the owner of that, and so on; the root of a registry
is the last, also for those whose owners do not end in it. -/
inductive Outward (c : Catalog) (r : Registry) : EntityId → List EntityId → Prop where
  | root : Outward c r (c.root r) [c.root r]
  | alone {n : EntityId} (howner : (c.entity n).owner? = none) (hne : n ≠ c.root r) :
      Outward c r n [n, c.root r]
  | within {n m : EntityId} {chain : List EntityId} (howner : (c.entity n).owner? = some m)
      (h : Outward c r m chain) : Outward c r n (n :: chain)

/-- From every namespace there is a way outward. -/
theorem exists_outward (hc : c.WellFormed) (hk : c.Knows n) : ∃ chain, c.Outward r n chain := by
  -- on the owners, which become one fewer with every step
  generalize hlin : (c.entity n).lineage = lin
  induction lin generalizing n with
  | nil =>
      by_cases hroot : n = c.root r
      · rw [hroot]
        exact ⟨_, .root⟩
      · exact ⟨_, .alone (by simp [Entity.owner?, hlin]) hroot⟩
  | cons a rest ih =>
      have howner : (c.entity n).owner? = some a.id := by simp [Entity.owner?, hlin]
      have hsame := hc.lineage hk
      rw [howner, hlin] at hsame
      obtain ⟨chain, hchain⟩ :=
        ih (hc.knows_owner hk howner).1 (List.cons.inj hsame).2.symm
      exact ⟨_, .within howner hchain⟩

theorem Outward.root_mem (h : c.Outward r n chain) : c.root r ∈ chain := by
  induction h with
  | root => simp
  | alone => simp
  | within _ _ ih => simp [ih]

/-- Below its owner a namespace is looked in before all that the owner looks in. -/
theorem searchPaths_of_owner (hc : c.WellFormed) (hk : c.Knows n)
    (howner : (c.entity n).owner? = some m) :
    c.searchPaths r (some n) = c.path n :: c.searchPaths r (some m) := by
  have hlin := hc.lineage hk
  rw [howner] at hlin
  have hpath : lineagePath (c.entity n).lineage = c.path m :=
    ownerPath_eq_path (hc.knows_owner hk howner).2 hlin
  have hlast : ((c.entity n).lineage.getLast?.map Ancestor.id).getD n =
      ((c.entity m).lineage.getLast?.map Ancestor.id).getD m := by
    rw [hlin, lineageOf, List.getLast?_cons]
    cases (c.entity m).lineage.getLast? <;> rfl
  rw [hlin] at hpath
  simp only [searchPaths, Option.getD_some, hlast]
  rw [hlin, lineageOf, chainPaths, ← lineageOf, hpath]
  rfl

/-- A name is looked for in the namespaces from one outward. -/
theorem Outward.searchPaths_eq (hc : c.WellFormed) (ho : c.Opened r) (h : c.Outward r n chain)
    (hk : c.Knows n) : c.searchPaths r (some n) = chain.map c.path := by
  have hpath := hc.path_root ho
  induction h with
  | root =>
      have hlin := (hc.bare_root ho.knows_root (hc.root ho.lt).2).2
      simp [searchPaths, hlin, chainPaths, path]
  | @alone n howner hne =>
      have hlin : (c.entity n).lineage = [] := by rw [hc.lineage hk, howner]; rfl
      simp [searchPaths, hlin, chainPaths, hne, path, ← hpath]
  | within howner h ih =>
      rw [searchPaths_of_owner hc hk howner, ih (hc.knows_owner hk howner).1, List.map_cons]

/-! ### The nearest namespace decides -/

/-- Nothing is found exactly where every namespace on the way outward misses. -/
theorem Outward.resolve_eq_none_iff (hc : c.WellFormed) (ho : c.Opened r)
    (h : c.Outward r n chain) (hk : c.Knows n) :
    c.resolve r (some n) name = none ↔ ∀ a ∈ chain, c.Misses r (c.path a) name := by
  rw [resolve, h.searchPaths_eq hc ho hk, List.findSome?_eq_none_iff]
  simp only [List.mem_map, forall_exists_index, and_imp, forall_apply_eq_imp_iff₂,
    findSome?_candidates_eq_none_iff]

/-- What is found is a hit in one namespace on the way outward, and all before it miss. -/
theorem Outward.of_resolve (hc : c.WellFormed) (ho : c.Opened r) (h : c.Outward r n chain)
    (hk : c.Knows n) (hfound : c.resolve r (some n) name = some e) :
    ∃ inner a outer, chain = inner ++ a :: outer ∧
      (∀ b ∈ inner, c.Misses r (c.path b) name) ∧ c.Hits r (c.path a) name e := by
  rw [resolve, h.searchPaths_eq hc ho hk, List.findSome?_map, List.findSome?_eq_some_iff] at hfound
  obtain ⟨inner, a, outer, rfl, hhit, hmiss⟩ := hfound
  exact ⟨inner, a, outer, rfl, fun b hb => findSome?_candidates_eq_none_iff.1 (hmiss b hb),
    hits_of_findSome?_candidates hhit⟩

/-- What is found below the namespace itself is found. -/
theorem resolve_of_near
    (h : (candidates (searchSeparators r) (c.path n) name).findSome? (c.entries r).get? = some e) :
    c.resolve r (some n) name = some e := by
  show (c.path n :: _).findSome? _ = some e
  rw [List.findSome?_cons, h]

/-- Where the name hits below the namespace itself, it hits there. -/
theorem Hits.resolve (h : c.Hits r (c.path n) name e) :
    ∃ e', c.resolve r (some n) name = some e' ∧ c.Hits r (c.path n) name e' := by
  obtain ⟨p, hdenotes, hget⟩ := h
  have hsome : (candidates (searchSeparators r) (c.path n) name).findSome?
      (c.entries r).get? ≠ none := fun hnone =>
    nomatch (findSome?_candidates_eq_none_iff.1 hnone p hdenotes).symm.trans hget
  obtain ⟨e', he'⟩ := Option.ne_none_iff_exists'.1 hsome
  exact ⟨e', resolve_of_near he', hits_of_findSome?_candidates he'⟩

/-! ### Paths as names -/

/-- At the top level the first path that is tried is the name itself. -/
theorem candidates_top (r : Registry) (name : String) :
    ∃ rest, candidates (searchSeparators r) "" name = name :: rest := by
  unfold candidates
  split
  · exact ⟨[], by simp⟩
  · exact ⟨_, if_pos rfl⟩

/-- A path that is taken means, at the top level, what is held at it. -/
theorem resolve_root_of_get? (hc : c.WellFormed) (ho : c.Opened r)
    (hget : (c.entries r).get? p = some e) : c.resolve r (some (c.root r)) p = some e := by
  obtain ⟨rest, hrest⟩ := candidates_top r p
  refine resolve_of_near ?_
  rw [hc.path_root ho, hrest, List.findSome?_cons, hget]

/-- A path that is taken is found from everywhere. -/
theorem Outward.resolve_ne_none (hc : c.WellFormed) (ho : c.Opened r) (h : c.Outward r n chain)
    (hk : c.Knows n) (hget : (c.entries r).get? p = some e) :
    c.resolve r (some n) p ≠ none := by
  intro hnone
  have hmiss := (h.resolve_eq_none_iff hc ho hk).1 hnone _ h.root_mem
  rw [hc.path_root ho] at hmiss
  exact nomatch (hmiss p (Separators.denotes_self _ p)).symm.trans hget

/-! ### What is held, by its own name -/

/-- The path of an entity is one that its name may denote below its owner's path. -/
theorem denotes_path {x : Entity} (hk : x.kind ≠ .root) (hh : x.home = r)
    (hname : ¬ r.separators.Heads x.name) :
    r.separators.Denotes x.ownerPath x.name x.path := by
  rw [Separators.Denotes, if_neg hname, Entity.path_eq_joint hk, Entity.joint, hh]
  by_cases hjoint : r.separators.joint x.ownerPath x.scope? = ""
  · left
    have htop : x.ownerPath = "" := by
      by_contra howner
      exact Separators.joint_ne_empty r.config.distinct (.inl howner) hjoint
    rw [hjoint, htop]
    simp
  · exact .inr ⟨_, Separators.joint_mem_all hjoint, rfl⟩

/-- What is held is found where it belongs by its name, or else something at a path that the name
may denote there. -/
theorem KeysHold.found_by_name (hk : c.KeysHold) (hc : c.WellFormed) (ho : c.Opened r)
    (hreg : c.isRegistered r e = true) (hname : ¬ r.separators.Heads (c.entity e).name) :
    ∃ e', c.resolve r (c.entity e).owner? (c.entity e).name = some e' ∧
      r.separators.Denotes (c.entity e).ownerPath (c.entity e).name (c.path e') := by
  have hget : (c.entries r).get? (c.path e) = some e := by simpa [Catalog.isRegistered] using hreg
  have hknown := hc.knows_entry hget
  -- without an owner it is looked for below the root
  have howner : c.path ((c.entity e).owner?.getD (c.root r)) = (c.entity e).ownerPath := by
    have hlin := hc.lineage hknown
    cases hn : (c.entity e).owner? with
    | none =>
        rw [hn] at hlin
        rw [Option.getD_none, hc.path_root ho, Entity.ownerPath, hlin]
        rfl
    | some n =>
        rw [hn] at hlin
        exact (ownerPath_eq_path (hc.knows_owner hknown hn).2 hlin).symm
  have hdenotes : r.separators.Denotes (c.entity e).ownerPath (c.entity e).name (c.path e) := by
    by_cases hroot : (c.entity e).kind = .root
    · obtain ⟨hbare, hlin⟩ := hc.bare_root hknown hroot
      rw [path, Entity.path_of_root hroot, Entity.ownerPath, hlin, hbare]
      exact r.separators.denotes_self ""
    · exact denotes_path hroot (hk.home hc ho hget) hname
  have hhit : c.Hits r (c.path ((c.entity e).owner?.getD (c.root r))) (c.entity e).name e := by
    rw [howner]
    exact ⟨_, hdenotes, hget⟩
  obtain ⟨e', he', p, hp, hget'⟩ := hhit.resolve
  rw [howner, ← hk.path_eq hget'] at hp
  exact ⟨e', he', hp⟩

/-! ### What stays found -/

/-- A registry has its root still, and holds something at every path at which it did. -/
structure HoldsOn (r : Registry) (c c' : Catalog) : Prop where
  lt : r.index < c'.stock.size
  root : c'.root r = c.root r
  taken : ∀ p, (c.entries r).get? p ≠ none → (c'.entries r).get? p ≠ none

theorem HoldsOn.of_entries {c'' : Catalog} (h : HoldsOn r c c') (hlt : r.index < c''.stock.size)
    (hroot : c''.root r = c'.root r) (hentries : c''.entries r = c'.entries r) :
    HoldsOn r c c'' :=
  ⟨hlt, hroot.trans h.root, fun p hp => hentries ▸ h.taken p hp⟩

theorem HoldsOn.enter (h : HoldsOn r c c') (r' : Registry) (e : EntityId) :
    HoldsOn r c (c'.enter r' e) := by
  have hstock : (c'.enter r' e).stock = (c'.put r' e).stock := stock_adoptByOwner _ e
  have hroot : (c'.enter r' e).root r = c'.root r := by
    rw [root_congr hstock, put, root_updateEntries]
  have hlt : r.index < (c'.enter r' e).stock.size := by
    rw [hstock, put, stock_size_updateEntries]
    exact h.lt
  by_cases hi : r'.index = r.index
  · refine ⟨hlt, hroot.trans h.root, fun p hp => ?_⟩
    rw [entries_congr hstock, get?_entries_put c' e r p (hi ▸ h.lt)]
    split
    · exact Option.some_ne_none e
    · exact h.taken p hp
  · exact h.of_entries hlt hroot
      ((entries_congr hstock r).trans (c'.entries_updateEntries_of_ne _ hi))

end Catalog

/-- Nothing that a registry holds is taken away from its path: the registry is not begun again, and
nothing is deleted from it or made another scope. -/
def Operation.OnlyAdds (r : Registry) : Operation → Prop
  | clear r' => r'.index ≠ r.index
  | delete r' _ => r'.index ≠ r.index
  | setScope _ _ => False
  | _ => True

namespace Catalog

variable {c c' : Catalog} {r : Registry} {e m n : EntityId} {name : String} {n? : Option EntityId}

/-- What only adds to a registry leaves it what it has. -/
theorem HoldsOn.booked (r : Registry) (c : Catalog) :
    Booked (Operation.OnlyAdds r) (HoldsOn r c) where
  same h hs _ := h.of_entries (hs ▸ h.lt) (root_congr hs r) (entries_congr hs r)
  enter r' e h := h.enter r' e
  loaded r' count h := h.of_entries h.lt rfl rfl
  openRegistry := by
    intro c' config h
    have hne : r.index ≠ c'.stock.size := Nat.ne_of_lt h.lt
    refine h.of_entries ?_ ?_ ?_
    · have hlt := h.lt
      simp only [Catalog.openRegistry, add, Array.size_push]
      omega
    · rw [root_openRegistry, if_neg hne]
    · rw [entries_openRegistry, if_neg hne]
  clear := by
    intro c' r' hi h
    refine h.of_entries (by rw [stock_size_clear]; exact h.lt) ?_ ?_
    · rw [Catalog.root, holdings_clear_of_ne c' hi, Catalog.root]
    · rw [entries, holdings_clear_of_ne c' hi, entries]
  delete := by
    intro c' r' e hi h
    by_cases hreg : c'.isRegistered r' e = true
    · have hstock := stock_delete hreg
      refine h.of_entries ?_ ?_ ?_
      · rw [hstock, stock_size_updateEntries]
        exact h.lt
      · rw [root_congr hstock, root_updateEntries]
      · exact (entries_congr hstock r).trans (c'.entries_updateEntries_of_ne _ hi)
    · rwa [Catalog.delete, if_neg hreg]
  rescope := fun _ hop => hop.elim

/-- One catalog comes from another by an operation that only adds to a registry. -/
def Adds (r : Registry) (c c' : Catalog) : Prop :=
  ∃ op : Operation, op.Granted c ∧ op.OnlyAdds r ∧ (op.action c).2 = c'

theorem holdsOn_of_adds (hc : c.WellFormed) (ho : c.Opened r)
    (h : Relation.ReflTransGen (Adds r) c c') :
    c'.WellFormed ∧ Later c c' ∧ HoldsOn r c c' := by
  induction h with
  | refl => exact ⟨hc, .refl c, ho.lt, rfl, fun _ => id⟩
  | tail _ hadds ih =>
      obtain ⟨hc₁, hlater, hholds⟩ := ih
      obtain ⟨op, hgranted, hop, rfl⟩ := hadds
      have hw := op.writes hc₁ hgranted
      exact ⟨hw.wellFormed hc₁, hlater.trans hw.later, ((HoldsOn.booked r c).keeps hop _ hholds).run⟩

/-- Where a name is looked for from inside a namespace is settled. -/
theorem Later.searchPaths_eq (h : Later c c') (hroot : c'.root r = c.root r) (hk : c.Knows n)
    (hs : (c.entity n).isSpace = true) : c'.searchPaths r (some n) = c.searchPaths r (some n) := by
  have hpath : (c'.entity n).path = (c.entity n).path :=
    Entity.path_eq_of_settled (h.settled hk) hs
  simp only [searchPaths, Option.getD_some, hpath, h.lineage hk, hroot]

/-- What is found stays found while things are only added. -/
theorem resolve_ne_none_of_adds (hc : c.WellFormed) (ho : c.Opened r)
    (h : Relation.ReflTransGen (Adds r) c c') (hk : c.Knows n)
    (hs : (c.entity n).isSpace = true) (hfound : c.resolve r (some n) name ≠ none) :
    c'.resolve r (some n) name ≠ none := by
  obtain ⟨-, hlater, hholds⟩ := holdsOn_of_adds hc ho h
  intro hnone
  apply hfound
  rw [resolve, hlater.searchPaths_eq hholds.root hk hs] at hnone
  rw [resolve]
  simp only [List.findSome?_eq_none_iff] at hnone ⊢
  intro base hbase p hp
  by_contra htaken
  exact hholds.taken p htaken (hnone base hbase p hp)

end Catalog

namespace Session

open Catalog

variable {s : Session} {r : Registry}

/-- **The nearest enclosing namespace that knows a name decides what it means**, in every session
and from inside every namespace, one of another registry, a root of old or one that stands alone
included.  What is found stays found as long as nothing is taken away from its path; a path that is
taken is found from everywhere, and means what is held at it at the top level; and what is held is
found where it belongs by its name, or else something that its name may denote there. -/
theorem names_found_outward (h : s.Reachable) (ho : s.catalog.Opened r) :
    let c := s.catalog
    (∀ n? name, (∀ n ∈ n?, c.Knows n ∧ (c.entity n).isSpace = true) →
      (∃ chain, c.Outward r (n?.getD (c.root r)) chain ∧
        (c.resolve r n? name = none ↔ ∀ a ∈ chain, c.Misses r (c.path a) name) ∧
        ∀ e, c.resolve r n? name = some e → ∃ inner a outer, chain = inner ++ a :: outer ∧
          (∀ b ∈ inner, c.Misses r (c.path b) name) ∧ c.Hits r (c.path a) name e) ∧
      ∀ c', Relation.ReflTransGen (Adds r) c c' →
        c.resolve r n? name ≠ none → c'.resolve r n? name ≠ none) ∧
    (∀ p e, (c.entries r).get? p = some e → c.resolve r none p = some e ∧
      ∀ n, c.Knows n → c.resolve r (some n) p ≠ none) ∧
    ∀ e, c.isRegistered r e = true → ¬ r.separators.Heads (c.entity e).name →
      ∃ e', c.resolve r (c.entity e).owner? (c.entity e).name = some e' ∧
        r.separators.Denotes (c.entity e).ownerPath (c.entity e).name (c.path e') := by
  obtain ⟨hc, hkeys, -⟩ := Reachable.sound h
  intro c
  have hroot : c.Knows (c.root r) ∧ (c.entity (c.root r)).isSpace = true :=
    ⟨ho.knows_root, isSpace_iff.2 (.inr (hc.root ho.lt).2)⟩
  refine ⟨fun n? name hn => ?_, fun p e hget => ⟨resolve_root_of_get? hc ho hget, fun n hk => ?_⟩,
    fun e hreg hname => hkeys.found_by_name hc ho hreg hname⟩
  · -- no namespace stands for the root
    have hstart : c.Knows (n?.getD (c.root r)) ∧
        (c.entity (n?.getD (c.root r))).isSpace = true := by
      cases n? with
      | none => exact hroot
      | some n => exact hn n rfl
    obtain ⟨chain, hchain⟩ := exists_outward (r := r) hc hstart.1
    refine ⟨⟨chain, hchain, hchain.resolve_eq_none_iff hc ho hstart.1,
      fun e he => hchain.of_resolve hc ho hstart.1 he⟩, fun c' hadds hfound => ?_⟩
    have hsame : c'.resolve r n? name = c'.resolve r (some (n?.getD (c.root r))) name := by
      rw [← (holdsOn_of_adds hc ho hadds).2.2.root]
      rfl
    rw [hsame]
    exact resolve_ne_none_of_adds hc ho hadds hstart.1 hstart.2 hfound
  · obtain ⟨chain, hchain⟩ := exists_outward (r := r) hc hk
    exact hchain.resolve_ne_none hc ho hk hget

/-- From inside a namespace that stands alone the paths of the registry are found. -/
theorem names_found_outward_alone :
    let r : Registry := ⟨0, {}⟩
    let act (s : Session) (op : Operation) : Session :=
      { s with catalog := (op.action s.catalog).2 }
    let entry (space : String) : Value := .dict [("namespace", .text space),
      ("name", .text "total")]
    let s₁ := act {} (.openRegistry {})
    let s₂ := act s₁ (.load r (.dict [("methods", .list [entry "Shop::Cart", entry "Shop"])]))
    let s := act s₂ (.makeSpace { owner? := none, name := .text "Loose", registry? := some r })
    s.Reachable ∧ s.catalog.Opened r ∧
      s.catalog.paths r = ["Shop", "Shop::Cart", "Shop::Cart#total", "Shop#total"] ∧
      s.catalog.resolve r (some ⟨2⟩) "total" = some ⟨3⟩ ∧
      s.catalog.resolve r none "Shop#total" = some ⟨4⟩ ∧
      s.catalog.resolve r (some ⟨5⟩) "Shop#total" ≠ none := by
  intro r act entry s₁ s₂ s
  have ho₁ : s₁.catalog.Opened r := ⟨by decide +kernel, by decide +kernel, by decide +kernel⟩
  have ho : s.catalog.Opened r := ⟨by decide +kernel, by decide +kernel, by decide +kernel⟩
  have h₁ : s₁.Reachable := .single (.act (.openRegistry {}) trivial)
  have h₂ : s₂.Reachable := .tail h₁ (.act (.load r _) ho₁)
  have h : s.Reachable := by
    refine .tail h₂ (.act (.makeSpace _) ⟨fun n hn => (by cases hn), fun _ hr => ?_⟩)
    cases hr
    exact ⟨by decide +kernel, by decide +kernel, by decide +kernel⟩
  have hfound := (names_found_outward h ho).2.1 "Shop#total" ⟨4⟩ (by decide +kernel)
  exact ⟨h, ho, by decide +kernel, by decide +kernel, hfound.1, hfound.2 ⟨5⟩ (by decide +kernel)⟩

end Session

end DocCatalog
