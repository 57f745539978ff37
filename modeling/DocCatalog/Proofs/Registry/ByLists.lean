/-
**The way to a namespace goes by the lists, not by the paths.**

Whether a namespace is there is asked of the list of the one before it, never of the registry.  The
two may differ: a member of a list need not be registered, and what is registered need not be in a
list, for it may have been made without an owner, or below a root that is no longer the root.  A
namespace that is met is taken as it is, registered or not; where none is met a new one takes the
path, whoever has it.

Main definitions:

* `Catalog.met`: the namespaces that are met along some names, until one is missing.

Main results:

* `Catalog.Proceeds.entries_of_short`: no path is written to but those further down;
* `Catalog.Proceeds.registered_iff`: what is made on the way is registered, what is met stays as it
  is;
* `Catalog.Lockstep.namespace_by_path`: in a registry in step the lists and the paths agree;
* `Session.namespace_by_lists`: **when the registry finds what was asked for, and when it keeps what
  it had**;
* `Session.registered_namespace_replaced`: a registered namespace that is lost.
-/

import DocCatalog.Proofs.Registry.Arrival

set_option autoImplicit false

namespace DocCatalog

/-- A path is longer than that of the owner. -/
theorem Separators.length_lt_namespacePath (s : Separators) {name : String} (hname : name ≠ "")
    (base : String) : base.length < (s.namespacePath name base).length := by
  have hpos : 0 < name.length := Nat.pos_of_ne_zero fun h => hname (String.length_eq_zero_iff.1 h)
  unfold namespacePath isTopLevel
  split
  · next htop =>
      rw [of_decide_eq_true htop]
      exact hpos
  · rw [String.length_append, String.length_append]
    omega

namespace Catalog

variable {c c' : Catalog} {r : Registry} {e m n : EntityId} {name : String}
  {names : List String}

/-! ### What is met -/

/-- The namespaces that are met along some names, until one is missing. -/
def met (c : Catalog) (n : EntityId) : List String → List EntityId
  | [] => []
  | name :: rest =>
      match c.nestedSpace? n name with
      | some e => e :: c.met e rest
      | none => []

theorem met_cons_of_some {rest : List String} (h : c.nestedSpace? n name = some e) :
    c.met n (name :: rest) = e :: c.met e rest := by simp only [met, h]

theorem met_cons_of_none {rest : List String} (h : c.nestedSpace? n name = none) :
    c.met n (name :: rest) = [] := by simp only [met, h]

/-- Nothing is met below a namespace without members. -/
theorem nestedSpace?_of_memberless (h : ∀ k, (c.slots n).get? k = none) :
    c.nestedSpace? n name = none := by
  simp [nestedSpace?, Tables.member?, ← slots_eq, h]

theorem met_of_memberless (h : ∀ k, (c.slots n).get? k = none) : c.met n names = [] := by
  cases names with
  | nil => rfl
  | cons name rest => exact met_cons_of_none (nestedSpace?_of_memberless h)

/-- The end of a walk and its owners are what was met, and before that where the walk began. -/
theorem ids_of_walk? (hc : c.WellFormed) (hs : c.SlotsHold) :
    ∀ {n m}, c.walk? n names = some m →
      m :: (c.entity m).lineage.map Ancestor.id =
        (c.met n names).reverse ++ n :: (c.entity n).lineage.map Ancestor.id := by
  induction names with
  | nil =>
      intro n m hm
      rw [walk?_nil] at hm
      cases hm
      rfl
  | cons name rest ih =>
      intro n m hm
      rw [walk?_cons, Option.bind_eq_some_iff] at hm
      obtain ⟨e, he, hrest⟩ := hm
      obtain ⟨⟨k, -, hslot⟩, -⟩ := slot_of_nestedSpace? he
      have hlin : (c.entity e).lineage = c.lineageOf (some n) := by
        rw [← hs.owner?_eq hslot]
        exact hc.lineage (hc.knows_slot hslot)
      rw [ih hrest, met_cons_of_some he, hlin]
      simp [lineageOf, Entity.asAncestor]

/-- What is met is found in the list of a namespace that is found from the root. -/
theorem Rooted.exists_of_mem_met :
    ∀ {n}, Rooted r c n → e ∈ c.met n names →
      ∃ m name, Rooted r c m ∧ c.nestedSpace? m name = some e := by
  induction names with
  | nil => exact fun _ he => nomatch he
  | cons name rest ih =>
      intro n hn he
      cases hfound : c.nestedSpace? n name with
      | none =>
          rw [met_cons_of_none hfound] at he
          cases he
      | some e' =>
          rw [met_cons_of_some hfound] at he
          rcases List.mem_cons.1 he with rfl | he
          · exact ⟨n, name, hn, hfound⟩
          · exact ih (hn.nested hfound) he

/-- On the way from the root to a namespace, the namespace itself and its owners below the root are
met, and nothing else is. -/
theorem Rooted.mem_met_iff (h : Rooted r c n) (hm : c.walk? (c.root r) names = some m) :
    e ∈ c.met (c.root r) names ↔
      e ≠ c.root r ∧ (e = m ∨ ∃ a ∈ (c.entity m).lineage, a.id = e) := by
  obtain ⟨hk, hkind⟩ := h.wellFormed.root h.opened.lt
  have hlin := (h.wellFormed.bare_root hk hkind).2
  have hids := ids_of_walk? h.wellFormed h.slotsHold hm
  rw [hlin, List.map_nil] at hids
  have hmem : e = m ∨ (∃ a ∈ (c.entity m).lineage, a.id = e) ↔
      e ∈ c.met (c.root r) names ∨ e = c.root r := by
    have := congrArg (e ∈ ·) hids
    simpa using this
  rw [hmem]
  constructor
  · intro hmet
    refine ⟨?_, .inl hmet⟩
    -- the root has no owner, so it is in no list
    rintro rfl
    obtain ⟨n', name, -, hfound⟩ := h.root.exists_of_mem_met hmet
    obtain ⟨⟨k, -, hslot⟩, -⟩ := slot_of_nestedSpace? hfound
    have howner := h.slotsHold.owner?_eq hslot
    simp [Entity.owner?, hlin] at howner
  · rintro ⟨hne, hmet⟩
    exact hmet.resolve_right hne

/-! ### What is written on the way -/

/-- A namespace that is made is registered. -/
theorem Founds.isRegistered (h : Founds r n name e c c') : c'.isRegistered r e = true := by
  rw [Catalog.isRegistered, h.entries, if_pos rfl, decide_eq_true rfl]

namespace Proceeds

/-- No path is written to on the way but paths that are longer than the one at its beginning. -/
theorem entries_of_short (h : Proceeds r n names c m c') (hn : Rooted r c n) (hne : "" ∉ names)
    {p : String} (hp : p.length ≤ (c.path n).length) :
    (c'.entries r).get? p = (c.entries r).get? p := by
  induction h with
  | stop n c => rfl
  | @found n e m name rest c c' hfound h ih =>
      obtain ⟨hname, hrest⟩ := List.ne_and_not_mem_of_not_mem_cons hne
      have hlt := r.separators.length_lt_namespacePath (Ne.symm hname) (c.path n)
      rw [← hn.path_of_nestedSpace? hfound] at hlt
      exact ih (hn.nested hfound) hrest (hp.trans hlt.le)
  | @founded n e m name rest c c₁ c' hnew h ih =>
      obtain ⟨hname, hrest⟩ := List.ne_and_not_mem_of_not_mem_cons hne
      have hkept : c₁.path n = c.path n := (hnew.extended hn.wellFormed).path hn.knows
      have hlt := r.separators.length_lt_namespacePath (Ne.symm hname) (c₁.path n)
      rw [← (hnew.rooted_owner hn).path_of_nestedSpace? hnew.found, hkept] at hlt
      have hpath : c₁.path e ≠ p := by
        rintro rfl
        omega
      rw [ih (hnew.rooted hn) hrest (hp.trans hlt.le), hnew.entries, if_neg hpath]

/-- Where the way begins is registered after it if it was before. -/
theorem isRegistered_eq (h : Proceeds r n names c m c') (hn : Rooted r c n) (hne : "" ∉ names) :
    c'.isRegistered r n = c.isRegistered r n := by
  have hpath := (h.rooted hn).2.path hn.knows
  rw [isRegistered, isRegistered, hpath, h.entries_of_short hn hne le_rfl]

/-- All on the way is registered in the end exactly if all that was met was registered: the rest is
made, and registered. -/
theorem registered_iff (h : Proceeds r n names c m c') (hn : Rooted r c n) (hne : "" ∉ names) :
    (∀ e ∈ c'.met n names, c'.isRegistered r e = true) ↔
      ∀ e ∈ c.met n names, c.isRegistered r e = true := by
  induction h with
  | stop n c => exact Iff.rfl
  | found hfound h ih =>
      obtain ⟨-, hrest⟩ := List.ne_and_not_mem_of_not_mem_cons hne
      have he := hn.nested hfound
      rw [met_cons_of_some hfound, met_cons_of_some ((h.rooted he).2.found hfound),
        List.forall_mem_cons, List.forall_mem_cons, h.isRegistered_eq he hrest, ih he hrest]
  | founded hnew h ih =>
      obtain ⟨-, hrest⟩ := List.ne_and_not_mem_of_not_mem_cons hne
      have he := hnew.rooted hn
      -- nothing was met, and nothing is met below what is new
      have hbelow := ih he hrest
      rw [met_of_memberless (hnew.memberless hn.knows)] at hbelow
      rw [met_cons_of_none hnew.vacant, met_cons_of_some ((h.rooted he).2.found hnew.found),
        List.forall_mem_cons, h.isRegistered_eq he hrest, hnew.isRegistered, hbelow]
      simp

/-- Where the lists do not lead to the end of the names, a new namespace is there then, and it is
registered. -/
theorem new_of_walk? (h : Proceeds r n names c m c') (hn : Rooted r c n)
    (hw : c.walk? n names = none) : ¬ c.Knows m ∧ c'.isRegistered r m = true := by
  induction h with
  | stop n c => cases hw
  | found hfound h ih =>
      rw [walk?_cons, hfound] at hw
      exact ih (hn.nested hfound) hw
  | @founded n e m name rest c c₁ c' hnew h ih =>
      cases rest with
      | nil =>
          cases h
          exact ⟨hnew.unknown, hnew.isRegistered⟩
      | cons name' rest =>
          have hnowhere : c₁.walk? e (name' :: rest) = none := by
            rw [walk?_cons, nestedSpace?_of_memberless (hnew.memberless hn.knows)]
            rfl
          obtain ⟨hnot, hreg⟩ := ih (hnew.rooted hn) hnowhere
          exact ⟨fun hk => hnot (hnew.lists.writes.later.knows hk), hreg⟩

end Proceeds

/-! ### What the registry finds -/

section

variable {path : String} (hway : Proceeds r (c.root r) (spaceNames r path) c n c')
  (hc : Rooted r c (c.root r)) (hempty : ¬ HasEmptySegment r path)
include hway hc

theorem walk?_root_of_proceeds : c'.walk? (c'.root r) (spaceNames r path) = some n := by
  rw [(hway.rooted hc).2.root]
  exact hway.walk? hc

include hempty

/-- What is answered has the path, so it is found there if it is registered. -/
theorem lookup?_eq_some_iff_of_proceeds (hpath : path ≠ "") :
    c'.lookup? r path = some n ↔ c'.isRegistered r n = true := by
  have hat := (hway.rooted hc).1.path_of_spaceNames hempty (walk?_root_of_proceeds hway hc)
  rw [lookup?, if_neg hpath, isRegistered, hat, decide_eq_true_eq]

/-- The registry finds what is answered, and holds its owners below the root, exactly if it held all
that was met. -/
theorem found_by_path_iff (hpath : path ≠ "") :
    (c'.lookup? r path = some n ∧
        ∀ a ∈ (c'.entity n).lineage, a.id ≠ c'.root r → c'.isRegistered r a.id = true) ↔
      ∀ e ∈ c.met (c.root r) (spaceNames r path), c.isRegistered r e = true := by
  obtain ⟨hn, hext⟩ := hway.rooted hc
  have hwalk := walk?_root_of_proceeds hway hc
  have hnroot : n ≠ c'.root r := by
    rintro rfl
    exact hpath ((hn.path_of_spaceNames hempty hwalk).symm.trans hn.path_root)
  rw [← hway.registered_iff hc (fun hnone => hempty (hasEmptySegment_iff.2 hnone)), ← hext.root,
    lookup?_eq_some_iff_of_proceeds hway hc hempty hpath]
  simp only [hn.mem_met_iff hwalk]
  constructor
  · rintro ⟨hreg, howners⟩ e ⟨hne, rfl | ⟨a, ha, rfl⟩⟩
    · exact hreg
    · exact howners a ha hne
  · intro hall
    exact ⟨hall n ⟨hnroot, .inl rfl⟩, fun a ha hne => hall a.id ⟨hne, .inr ⟨a, ha, rfl⟩⟩⟩

/-- What is known is answered exactly if the lists lead to it, and then nothing is changed. -/
theorem known_answered (hrun : ensureNamespace r path c = (.ok n, c')) (he : c.Knows e) :
    (n = e ↔ c.walk? (c.root r) (spaceNames r path) = some e) ∧ (n = e → c' = c) := by
  cases hw : c.walk? (c.root r) (spaceNames r path) with
  | none =>
      have hne : n ≠ e := fun hne => (hway.new_of_walk? hc hw).1 (hne ▸ he)
      exact ⟨iff_of_false hne nofun, fun heq => absurd heq hne⟩
  | some m =>
      cases hrun.symm.trans (ensureNamespace_of_walk? hempty hw)
      exact ⟨by rw [Option.some.injEq], fun _ => rfl⟩

end

/-! ### Registries in step -/

/-- All that is found below the root of a registry in step belongs to it. -/
theorem Lockstep.rooted (h : Lockstep r c) : Rooted r c (c.root r) := by
  refine ⟨h.wellFormed, h.slotsHold, h.opened, fun {m} hm => ?_, .refl⟩
  induction hm with
  | refl => exact h.opened.home_root
  | tail _ hnest ih =>
      obtain ⟨⟨k, hslot⟩, -⟩ := hnest
      exact h.owns (h.wellFormed.knows_slot hslot) (h.slotsHold.owner?_eq hslot) ih

/-- All that is met in a registry in step is registered. -/
theorem Lockstep.registered_of_mem_met (h : Lockstep r c) (he : e ∈ c.met (c.root r) names) :
    c.isRegistered r e = true := by
  obtain ⟨n, name, hn, hfound⟩ := h.rooted.exists_of_mem_met he
  obtain ⟨⟨k, -, hslot⟩, hspace⟩ := slot_of_nestedSpace? hfound
  have hrooted := hn.nested hfound
  have hhome := hrooted.own hrooted.under
  have hx := h.placed hrooted.knows hhome (h.ne_root (h.slotsHold.owner?_eq hslot))
  exact h.registered hrooted.knows hhome
    ((isSpace_iff.1 hspace).resolve_right (kind_ne_root_of_scope hx.kind))

/-- **In a registry in step the lists and the paths agree**: for plain names the registry finds what
is answered and holds its owners, and a namespace that it has at the path is what is answered. -/
theorem Lockstep.namespace_by_path (h : Lockstep r c) {path : String} (hpath : path ≠ "")
    (hplain : ∀ name ∈ spaceNames r path, r.separators.Plain name) :
    ∃ n c', ensureNamespace r path c = (.ok n, c') ∧ c'.lookup? r path = some n ∧
      (∀ a ∈ (c'.entity n).lineage, a.id ≠ c'.root r → c'.isRegistered r a.id = true) ∧
      ∀ e, c.lookup? r path = some e → (c.entity e).isSpace = true → n = e ∧ c' = c := by
  have hempty : ¬ HasEmptySegment r path := fun hempty =>
    (hplain "" (hasEmptySegment_iff.1 hempty)).1 rfl
  obtain ⟨n, c', hrun, hway⟩ := h.rooted.ensureNamespace_eq_ok hempty
  obtain ⟨hlookup, howners⟩ := (found_by_path_iff hway h.rooted hempty hpath).2
    fun e he => h.registered_of_mem_met he
  refine ⟨n, c', hrun, hlookup, howners, fun e he hspace => ?_⟩
  rw [lookup?, if_neg hpath] at he
  have hk := h.wellFormed.knows_entry he
  -- two namespaces of a registry in step do not have one path
  obtain ⟨m, d, hrun', hstep, hstands, -⟩ := ensureNamespace_ok h hplain
  cases hrun.symm.trans hrun'
  have hlater := (hway.rooted h.rooted).2
  have heq : n = e := by
    refine hstep.space_unique hstands.knows (hlater.writes.later.knows hk) hstands.isSpace ?_
      hstands.home ?_ ?_
    · rw [hlater.writes.later.isSpace hk, hspace]
    · rw [hlater.writes.later.home hk, h.keysHold.home h.wellFormed h.opened he]
    · rw [hstands.path_eq, hlater.path hk, h.keysHold.path_eq he]
  exact ⟨heq, (known_answered hway h.rooted hempty hrun hk).2 heq⟩

end Catalog

/-! ### Sessions -/

namespace Session

open Catalog

variable {s : Session} {r : Registry} {path : String}

/-- **In every session in which all that is found below the root belongs to the registry, the
registry agrees with what is answered exactly as far as it agreed with the lists.**  It finds the
namespace, and holds all owners of it below the root, exactly if all that is met on the way was
registered.  An entity that it had at the path is what is answered, and the entries stay as they
are, exactly if the lists lead there.  If they lead nowhere the answer is a new namespace, and the
registry finds it at the path from then on. -/
theorem namespace_by_lists (h : s.Reachable) (ho : s.catalog.Opened r)
    (hown : ∀ n, s.catalog.Under r n → (s.catalog.entity n).home = r) (hpath : path ≠ "")
    (hempty : ¬ HasEmptySegment r path) :
    ∃ n c', ensureNamespace r path s.catalog = (.ok n, c') ∧
      ((c'.lookup? r path = some n ∧
          ∀ a ∈ (c'.entity n).lineage, a.id ≠ c'.root r → c'.isRegistered r a.id = true) ↔
        ∀ e ∈ s.catalog.met (s.catalog.root r) (spaceNames r path),
          s.catalog.isRegistered r e = true) ∧
      (∀ e, s.catalog.lookup? r path = some e →
        ((n = e ∧ c'.entries r = s.catalog.entries r) ↔
          s.catalog.walk? (s.catalog.root r) (spaceNames r path) = some e)) ∧
      (s.catalog.walk? (s.catalog.root r) (spaceNames r path) = none →
        ¬ s.catalog.Knows n ∧ c'.lookup? r path = some n) := by
  have hrooted := Reachable.rooted h ho hown
  obtain ⟨n, c', hrun, hway⟩ := hrooted.ensureNamespace_eq_ok hempty
  refine ⟨n, c', hrun, found_by_path_iff hway hrooted hempty hpath, fun e he => ?_, fun hw => ?_⟩
  · rw [lookup?, if_neg hpath] at he
    have hk := hrooted.wellFormed.knows_entry he
    obtain ⟨hiff, hsame⟩ := known_answered hway hrooted hempty hrun hk
    exact ⟨fun hkept => hiff.1 hkept.1, fun hw => ⟨hiff.2 hw, by rw [hsame (hiff.2 hw)]⟩⟩
  · obtain ⟨hnew, hreg⟩ := hway.new_of_walk? hrooted hw
    exact ⟨hnew, (lookup?_eq_some_iff_of_proceeds hway hrooted hempty hpath).2 hreg⟩

/-- Below a namespace that was made and never registered another is asked for: it is made and
registered, and its owner stays unregistered. -/
theorem namespace_by_lists_unregistered :
    let r : Registry := ⟨0, {}⟩
    let act (s : Session) (op : Operation) : Session :=
      { s with catalog := (op.action s.catalog).2 }
    let shop : Origin := { owner? := some ⟨0⟩, name := .text "Shop" }
    let s₁ := act {} (.openRegistry {})
    let s₂ := act s₁ (.makeSpace shop)
    let c := s₂.catalog
    s₂.Reachable ∧ c.Opened r ∧ (∀ n, c.Under r n → (c.entity n).home = r) ∧
      ¬ HasEmptySegment r "Shop::Cart" ∧ c.isRegistered r ⟨1⟩ = false ∧
      ∃ n c', ensureNamespace r "Shop::Cart" c = (.ok n, c') ∧ ¬ c.Knows n ∧
        c'.lookup? r "Shop::Cart" = some n ∧
        ¬ ∀ a ∈ (c'.entity n).lineage, a.id ≠ c'.root r → c'.isRegistered r a.id = true := by
  intro r act shop s₁ s₂ c
  have hroot : s₁.catalog.Knows ⟨0⟩ ∧ (s₁.catalog.entity ⟨0⟩).isSpace = true := by
    decide +kernel
  have h₁ : s₁.Reachable := .single (.act (.openRegistry {}) trivial)
  have h₂ : s₂.Reachable := .tail h₁ (.act (.makeSpace shop)
    ⟨fun n h => by cases h; exact hroot, fun _ h => by cases h⟩)
  have ho : c.Opened r := ⟨by decide +kernel, by decide +kernel, by decide +kernel⟩
  have hown := (Reachable.sound h₂).wellFormed.own_of_sole ho (by decide +kernel)
  have hempty : ¬ HasEmptySegment r "Shop::Cart" :=
    fun h => absurd (hasEmptySegment_iff.1 h) (by decide +kernel)
  have hreg : c.isRegistered r ⟨1⟩ = false := by decide +kernel
  have hmet : c.met (c.root r) (spaceNames r "Shop::Cart") = [⟨1⟩] := by decide +kernel
  have hwalk : c.walk? (c.root r) (spaceNames r "Shop::Cart") = none := by decide +kernel
  obtain ⟨n, c', hrun, hiff, -, hnew⟩ := namespace_by_lists h₂ ho hown (by decide) hempty
  obtain ⟨hunknown, hlookup⟩ := hnew hwalk
  refine ⟨h₂, ho, hown, hempty, hreg, n, c', hrun, hunknown, hlookup, fun howners => ?_⟩
  have hmem : (⟨1⟩ : EntityId) ∈ c.met (c.root r) (spaceNames r "Shop::Cart") := by
    rw [hmet, List.mem_singleton]
  have hregistered := hiff.1 ⟨hlookup, howners⟩ ⟨1⟩ hmem
  rw [hreg] at hregistered
  cases hregistered

/-- A namespace that was made without an owner and registered is in no list: asking for its path
makes another, which takes the path from it. -/
theorem registered_namespace_replaced :
    let r : Registry := ⟨0, {}⟩
    let act (s : Session) (op : Operation) : Session :=
      { s with catalog := (op.action s.catalog).2 }
    let s₁ := act {} (.openRegistry {})
    let s₂ := act s₁ (.makeSpace { owner? := none, name := .text "Depot", registry? := some r })
    let s₃ := act s₂ (.register r ⟨1⟩)
    let c := s₃.catalog
    s₃.Reachable ∧ c.Opened r ∧ c.lookup? r "Depot" = some ⟨1⟩ ∧
      (c.entity ⟨1⟩).isSpace = true ∧
      ∃ c', ensureNamespace r "Depot" c = (.ok ⟨2⟩, c') ∧ c'.lookup? r "Depot" = some ⟨2⟩ ∧
        c'.isRegistered r ⟨1⟩ = false := by
  intro r act s₁ s₂ s₃ c
  have ho₁ : s₁.catalog.Opened r := ⟨by decide +kernel, by decide +kernel, by decide +kernel⟩
  have ho₂ : s₂.catalog.Opened r := ⟨by decide +kernel, by decide +kernel, by decide +kernel⟩
  have h₁ : s₁.Reachable := .single (.act (.openRegistry {}) trivial)
  have h₂ : s₂.Reachable := .tail h₁ (.act (.makeSpace _)
    ⟨fun _ h => (nomatch h), fun _ h => by cases h; exact ho₁⟩)
  have h₃ : s₃.Reachable := .tail h₂ (.act (.register r ⟨1⟩) ⟨ho₂, by decide +kernel⟩)
  have ho₃ : c.Opened r := ⟨by decide +kernel, by decide +kernel, by decide +kernel⟩
  have hok : (ensureNamespace r "Depot" c).1.toOption = some ⟨2⟩ := by decide +kernel
  refine ⟨h₃, ho₃, by decide +kernel, by decide +kernel, (ensureNamespace r "Depot" c).2, ?_,
    by decide +kernel, by decide +kernel⟩
  rcases hrun : ensureNamespace r "Depot" c with ⟨_ | n, c'⟩ <;> rw [hrun] at hok
  · cases hok
  · cases hok
    rfl

end Session

end DocCatalog
