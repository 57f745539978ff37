/-
**A namespace that is asked for has the path that was asked for.**

A path is cut into names, and for each a namespace is looked for in the list of the one before and
made there if none is found.  The two do not speak of paths at all: the path of a namespace is
computed from its owner's when it is read.  That it comes to what was asked for holds whatever else
is in the lists, and wherever separators overlap in the path.

What is said here of one step says all that the step does, so that other laws of the way can be
proved from it.

Main definitions:

* `Catalog.Rooted`: a namespace that is found from the root, where all that is found belongs to the
  registry;
* `Catalog.walk?`: the namespace that some names lead to along the lists;
* `Catalog.Founds`: a namespace is made and registered below another;
* `Catalog.Proceeds`: what happens along some names.

Main results:

* `Catalog.Rooted.ensureNested_eq`: a namespace is found, or it is made and registered;
* `Catalog.Rooted.path_of_walk?`: the path at the end of a walk is made from the names;
* `Session.namespace_at_path_asked_for`: **asking for a namespace is refused for an empty segment
  only, answers with a namespace of that path, and answers the same when asked again**.
-/

import DocCatalog.Proofs.Catalog.Membership
import DocCatalog.Proofs.Manifest.Refusal
import DocCatalog.Proofs.Registry.Namespaces

set_option autoImplicit false

namespace DocCatalog

namespace Catalog

variable {c c' c'' : Catalog} {r : Registry} {e m n : EntityId} {name : String}
  {names : List String}

/-! ### Namespaces found from the root -/

/-- A namespace that is found from the root of a registry, in a catalog in order in which all that
is found from there belongs to the registry. -/
structure Rooted (r : Registry) (c : Catalog) (n : EntityId) : Prop where
  wellFormed : c.WellFormed
  slotsHold : c.SlotsHold
  opened : c.Opened r
  own : ∀ {m}, c.Under r m → (c.entity m).home = r
  under : c.Under r n

namespace Rooted

variable (h : Rooted r c n)
include h

theorem contained : Contained r c c :=
  Manifest.contained_of_own h.wellFormed h.opened fun _ => h.own

theorem knows : c.Knows n := (h.under.known h.wellFormed h.opened).1

theorem isSpace : (c.entity n).isSpace = true := (h.under.known h.wellFormed h.opened).2

theorem root : Rooted r c (c.root r) := { h with under := .refl }

theorem path_root : c.path (c.root r) = "" :=
  Entity.path_of_root (h.wellFormed.root h.opened.lt).2

/-- What is found in the list of a namespace is found from the root, if the namespace is. -/
theorem nested (hfound : c.nestedSpace? n name = some e) : Rooted r c e := by
  obtain ⟨⟨k, -, hslot⟩, hspace⟩ := slot_of_nestedSpace? hfound
  exact { h with under := h.under.tail ⟨⟨k, hslot⟩, hspace⟩ }

/-- The path of what is found in the list of a namespace is made from its name. -/
theorem path_of_nestedSpace? (hfound : c.nestedSpace? n name = some e) :
    c.path e = r.separators.namespacePath name (c.path n) := by
  obtain ⟨⟨k, hkey, hslot⟩, hspace⟩ := slot_of_nestedSpace? hfound
  have hk := h.wellFormed.knows_slot hslot
  have howner := h.slotsHold.owner?_eq hslot
  have hname : (c.entity e).name = name :=
    (congrArg Prod.fst (h.slotsHold.memberKey_eq hslot)).trans hkey
  -- a root has no owner
  have hkind : (c.entity e).kind = .space := by
    refine (isSpace_iff.1 hspace).resolve_right fun hroot => ?_
    have hlin := (h.wellFormed.bare_root hk hroot).2
    simp [Entity.owner?, hlin] at howner
  have hlin := h.wellFormed.lineage hk
  rw [howner] at hlin
  rw [path, Entity.path_eq_kind_scope, scope?_of_kind_space hkind, hname,
    ownerPath_eq_path h.isSpace hlin, h.own (h.nested hfound).under]
  simp [hkind]

end Rooted

/-- In a catalog of one registry all that is found from its root belongs to it. -/
theorem WellFormed.own_of_sole (hc : c.WellFormed) (ho : c.Opened r) (hsole : c.stock.size = 1) :
    ∀ n, c.Under r n → (c.entity n).home = r := by
  intro n hn
  have hhome := hc.opened_home (hn.known hc ho).1
  have hlt := hhome.lt
  have hlt' := ho.lt
  exact hhome.eq_of_index ho (by omega)

/-! ### One namespace more -/

/-- An entity that is listed again has the slot that it had. -/
theorem Lists.again (h : Lists r e c c') (h' : Lists r e c' c'') (hk : c'.Knows e) :
    Lists r e c c'' where
  writes := h.writes.trans h'.writes
  root := h'.root.trans h.root
  others hk' hne := h.others (h'.others hk' hne) hne
  identity hk' := (h'.identity (h.writes.later.knows hk')).trans (h.identity hk')
  slots n k := by
    have hid := h'.identity hk
    rw [h'.slots, h.slots, Entity.owner?_eq_of_settled (Entity.settled_eq_of_identity hid),
      Entity.memberKey_eq_of_identity hid]
    by_cases hnk : (c'.entity e).owner? = some n ∧ (c'.entity e).memberKey = k <;> simp [hnk]

/-- A namespace of a name is made below another, which lists none of that name, and registered.
Whatever else has its slot or its path loses it, and nothing else is changed. -/
structure Founds (r : Registry) (n : EntityId) (name : String) (e : EntityId)
    (c c' : Catalog) : Prop where
  vacant : c.nestedSpace? n name = none
  unknown : ¬ c.Knows e
  lists : Lists r e c c'
  settled : (c'.entity e).settled = ⟨name, r, c.lineageOf (some n), .space⟩
  entries : ∀ p, (c'.entries r).get? p =
    if c'.path e = p then some e else (c.entries r).get? p

namespace Founds

variable (h : Founds r n name e c c')
include h

theorem kind : (c'.entity e).kind = .space := congrArg Settled.kind h.settled

theorem isSpace : (c'.entity e).isSpace = true := isSpace_iff.2 (.inl h.kind)

theorem owner? : (c'.entity e).owner? = some n := by
  have hlin : (c'.entity e).lineage = c.lineageOf (some n) := congrArg Settled.lineage h.settled
  rw [Entity.owner?, hlin]
  rfl

theorem memberKey : (c'.entity e).memberKey = (name, none) := by
  have hname : (c'.entity e).name = name := congrArg Settled.name h.settled
  rw [Entity.memberKey, hname, scope?_of_kind_space h.kind]

theorem slots (m : EntityId) (k : String × Option Scope) : (c'.slots m).get? k =
    if n = m ∧ (name, none) = k then some e else (c.slots m).get? k := by
  simp only [h.lists.slots, h.owner?, h.memberKey, Option.some.injEq]

/-- The new namespace is found. -/
theorem found : c'.nestedSpace? n name = some e := by
  have hslot : (c'.tables n).members.get? (name, none) = some e := by
    rw [← slots_eq, h.slots, if_pos ⟨rfl, rfl⟩]
  simp [nestedSpace?, Tables.member?, hslot, h.isSpace]

/-- Where the new namespace is made is found as before. -/
theorem rooted_owner (hn : Rooted r c n) : Rooted r c' n := by
  have hcon := hn.contained.list h.lists (get?_slots_of_not_knows h.unknown)
    (congrArg Settled.home h.settled)
  exact ⟨hcon.wellFormed, h.lists.writes.slotsHold hn.wellFormed hn.slotsHold, hcon.opened,
    hcon.own, h.lists.under_owner hn.wellFormed hn.under h.owner?⟩

theorem rooted (hn : Rooted r c n) : Rooted r c' e := (h.rooted_owner hn).nested h.found

/-- The new namespace has no members. -/
theorem memberless (hk : c.Knows n) (k : String × Option Scope) : (c'.slots e).get? k = none := by
  have hne : n ≠ e := fun hne => h.unknown (hne ▸ hk)
  rw [h.slots, if_neg fun hself => hne hself.1, get?_slots_of_not_knows h.unknown]

end Founds

/-- A namespace is found, or else it is made and registered. -/
theorem Rooted.ensureNested_eq (h : Rooted r c n) (name : String) :
    ∃ e c', ensureNested r n name c = (.ok e, c') ∧
      (c.nestedSpace? n name = some e ∧ c' = c ∨ Founds r n name e c c') := by
  rw [ensureNested, Action.bind_get]
  cases hfound : c.nestedSpace? n name with
  | some e => exact ⟨e, c, rfl, .inl ⟨rfl, rfl⟩⟩
  | none =>
      let o : Origin := { owner? := some n, name := .text name }
      obtain ⟨e, c₁, hmake, hunknown, hstock, hl, hmade, hid⟩ :=
        @make_below c r n .space (fun _ => .space false {}) o h.wellFormed h.opened h.under
          (h.own h.under) rfl rfl (fun _ => by simp [newEntity, Entity.kind]) fun _ => rfl
      have hc₁ := hl.writes.wellFormed h.wellFormed
      have hl' := lists_enter hc₁ hmade.knows hmade.home
      have hid' := hl'.identity hmade.knows
      refine ⟨e, c₁.enter r e, ?_,
        .inr ⟨hfound, hunknown, hl.again hl' hmade.knows, ?_, fun p => ?_⟩⟩
      · exact (Action.bind_of_ok hmake).trans
          (Action.bind_of_ok (register_of_home hmade.home))
      · exact Entity.settled_eq_of_identity (hid'.trans hid)
      · rw [get?_entries_enter (hl.writes.later.opened h.opened).lt, entries_congr hstock, path,
          path, Entity.path_eq_of_identity hid']

/-! ### What is found stays found -/

theorem nestedSpace?_congr
    (hslots : ∀ scope?, (c'.slots m).get? (name, scope?) = (c.slots m).get? (name, scope?))
    (hspace : ∀ {k e}, (c.slots m).get? k = some e →
      (c'.entity e).isSpace = (c.entity e).isSpace) :
    c'.nestedSpace? m name = c.nestedSpace? m name := by
  have hmember : (c'.tables m).member? name = (c.tables m).member? name := by
    simp only [Tables.member?, ← slots_eq, hslots]
  rw [nestedSpace?, nestedSpace?, hmember]
  cases he : (c.tables m).member? name with
  | none => rfl
  | some e =>
      have hsame : (c'.entity e).isSpace = (c.entity e).isSpace := by
        simp only [Tables.member?, Option.or_eq_some_iff] at he
        rcases he with he | ⟨-, he | ⟨-, he⟩⟩ <;> exact hspace he
      simp only [Option.filter_some, hsame]

/-- What is in the lists stays found, and nothing known changes in what identifies it. -/
structure Extends (r : Registry) (c c' : Catalog) : Prop where
  writes : Writes c c'
  root : c'.root r = c.root r
  identity : ∀ {e}, c.Knows e → (c'.entity e).identity = (c.entity e).identity
  found : ∀ {n name e}, c.nestedSpace? n name = some e → c'.nestedSpace? n name = some e

namespace Extends

theorem refl (r : Registry) (c : Catalog) : Extends r c c := ⟨.refl, rfl, fun _ => rfl, id⟩

theorem trans (h : Extends r c c') (h' : Extends r c' c'') : Extends r c c'' where
  writes := h.writes.trans h'.writes
  root := h'.root.trans h.root
  identity hk := (h'.identity (h.writes.later.knows hk)).trans (h.identity hk)
  found hfound := h'.found (h.found hfound)

theorem path (h : Extends r c c') (hk : c.Knows e) : c'.path e = c.path e :=
  Entity.path_eq_of_identity (h.identity hk)

end Extends

theorem Founds.extended (h : Founds r n name e c c') (hc : c.WellFormed) : Extends r c c' where
  writes := h.lists.writes
  root := h.lists.root
  identity := h.lists.identity
  found {m name' e'} hfound := by
    rw [← hfound]
    refine nestedSpace?_congr (fun scope? => ?_) fun hslot => ?_
    · -- where the new namespace is listed nothing was found
      rw [h.slots, if_neg]
      rintro ⟨rfl, hkey⟩
      obtain ⟨rfl, -⟩ := Prod.mk.inj hkey
      exact nomatch h.vacant.symm.trans hfound
    · exact h.lists.writes.later.isSpace (hc.knows_slot hslot)

/-! ### The way along the lists -/

/-- The namespace that some names lead to from another, each looked for in the list of the namespace
before. -/
def walk? (c : Catalog) (n : EntityId) (names : List String) : Option EntityId :=
  names.foldlM c.nestedSpace? n

@[simp] theorem walk?_nil (c : Catalog) (n : EntityId) : c.walk? n [] = some n := rfl

theorem walk?_cons (c : Catalog) (n : EntityId) (name : String) (rest : List String) :
    c.walk? n (name :: rest) = (c.nestedSpace? n name).bind fun e => c.walk? e rest := rfl

/-- The path at the end of a walk is made from the names. -/
theorem Rooted.path_of_walk? :
    ∀ {names : List String} {n}, Rooted r c n → c.walk? n names = some m →
      c.path m = names.foldl (fun p name => r.separators.namespacePath name p) (c.path n) := by
  intro names
  induction names with
  | nil =>
      intro n _ hm
      rw [walk?_nil] at hm
      cases hm
      rfl
  | cons name rest ih =>
      intro n h hm
      rw [walk?_cons, Option.bind_eq_some_iff] at hm
      obtain ⟨e, he, hrest⟩ := hm
      rw [List.foldl_cons, ← h.path_of_nestedSpace? he]
      exact ih (h.nested he) hrest

/-- From one namespace along some names to another, and from one catalog to another: at each name a
namespace is found, or it is made and registered. -/
inductive Proceeds (r : Registry) :
    EntityId → List String → Catalog → EntityId → Catalog → Prop where
  | stop (n : EntityId) (c : Catalog) : Proceeds r n [] c n c
  | found {n e m : EntityId} {name : String} {rest : List String} {c c' : Catalog}
      (hfound : c.nestedSpace? n name = some e) (h : Proceeds r e rest c m c') :
      Proceeds r n (name :: rest) c m c'
  | founded {n e m : EntityId} {name : String} {rest : List String} {c c₁ c' : Catalog}
      (hnew : Founds r n name e c c₁) (h : Proceeds r e rest c₁ m c') :
      Proceeds r n (name :: rest) c m c'

namespace Proceeds

/-- What was found is found still, and so is the end of the way. -/
theorem rooted (h : Proceeds r n names c m c') (hn : Rooted r c n) :
    Rooted r c' m ∧ Extends r c c' := by
  induction h with
  | stop n c => exact ⟨hn, .refl r c⟩
  | found hfound h ih => exact ih (hn.nested hfound)
  | founded hnew h ih =>
      obtain ⟨hm, hext⟩ := ih (hnew.rooted hn)
      exact ⟨hm, (hnew.extended hn.wellFormed).trans hext⟩

/-- The names lead to the end along the lists as they are then. -/
theorem walk? (h : Proceeds r n names c m c') (hn : Rooted r c n) :
    c'.walk? n names = some m := by
  induction h with
  | stop n c => rfl
  | found hfound h ih =>
      rw [walk?_cons, (h.rooted (hn.nested hfound)).2.found hfound]
      exact ih (hn.nested hfound)
  | founded hnew h ih =>
      rw [walk?_cons, (h.rooted (hnew.rooted hn)).2.found hnew.found]
      exact ih (hnew.rooted hn)

end Proceeds

/-! ### Asking along some names -/

/-- The namespace of a segment below another; the segment must not be empty. -/
def ensureSegment (r : Registry) (path : String) (n : EntityId) (name : String) :
    Action EntityId :=
  if name = "" then throw (.manifest (.emptySegment path) (some .namespaces))
  else ensureNested r n name

theorem ensureNamespace_eq (r : Registry) (path : String) (c : Catalog) :
    ensureNamespace r path c =
      (spaceNames r path).foldlM (ensureSegment r path) (c.root r) c := by
  show (if path = "" then _ else _ : Action EntityId) c = _
  unfold spaceNames
  split <;> rfl

/-- Names that are not empty are followed to their end. -/
theorem Rooted.ensure_names (path : String) :
    ∀ {names : List String}, "" ∉ names → ∀ {c n}, Rooted r c n →
      ∃ m c', names.foldlM (ensureSegment r path) n c = (.ok m, c') ∧
        Proceeds r n names c m c' := by
  intro names
  induction names with
  | nil => exact fun _ {c n} _ => ⟨n, c, rfl, .stop n c⟩
  | cons name rest ih =>
      intro hne c n h
      obtain ⟨hname, hrest⟩ := List.ne_and_not_mem_of_not_mem_cons hne
      obtain ⟨e, c₁, hrun, hstep⟩ := h.ensureNested_eq name
      have hfirst : ∀ {m c'}, rest.foldlM (ensureSegment r path) e c₁ = (.ok m, c') →
          (name :: rest).foldlM (ensureSegment r path) n c = (.ok m, c') := by
        intro m c' hrun'
        rw [List.foldlM_cons, ensureSegment, if_neg (Ne.symm hname)]
        exact (Action.bind_of_ok hrun).trans hrun'
      rcases hstep with ⟨hfound, rfl⟩ | hnew
      · obtain ⟨m, c', hrun', h'⟩ := ih hrest (h.nested hfound)
        exact ⟨m, c', hfirst hrun', .found hfound h'⟩
      · obtain ⟨m, c', hrun', h'⟩ := ih hrest (hnew.rooted h)
        exact ⟨m, c', hfirst hrun', .founded hnew h'⟩

/-- An empty name is refused, whatever was made before it. -/
theorem Rooted.ensure_names_refused (path : String) (h : Rooted r c n) (hempty : "" ∈ names) :
    ∃ c', names.foldlM (ensureSegment r path) n c =
      (.error (.manifest (.emptySegment path) (some .namespaces)), c') := by
  obtain ⟨before, after, rfl, hbefore⟩ := List.eq_append_cons_of_mem hempty
  obtain ⟨m, c', hrun, -⟩ := Rooted.ensure_names path hbefore h
  refine ⟨c', ?_⟩
  rw [List.foldlM_append, Action.bind_of_ok hrun]
  rfl

/-- Where names lead along the lists already, nothing is made. -/
theorem ensure_names_of_walk? (r : Registry) (path : String) (hne : "" ∉ names) :
    ∀ {n}, c.walk? n names = some m →
      names.foldlM (ensureSegment r path) n c = (.ok m, c) := by
  induction names with
  | nil =>
      intro n hm
      rw [walk?_nil] at hm
      cases hm
      rfl
  | cons name rest ih =>
      intro n hm
      obtain ⟨hname, hrest⟩ := List.ne_and_not_mem_of_not_mem_cons hne
      rw [walk?_cons, Option.bind_eq_some_iff] at hm
      obtain ⟨e, he, hm⟩ := hm
      have hfirst : ensureNested r n name c = (.ok e, c) := by
        rw [ensureNested, Action.bind_get, he]
        rfl
      rw [List.foldlM_cons, ensureSegment, if_neg (Ne.symm hname), Action.bind_of_ok hfirst]
      exact ih hrest hm

/-! ### Empty segments -/

/-- A path has an empty segment: it is not the root's, and splitting it gives an empty piece. -/
def HasEmptySegment (r : Registry) (path : String) : Prop :=
  path ≠ "" ∧ ∃ pieces,
    Text.Splits r.separators.nested.toList path.toList pieces ∧ [] ∈ pieces

theorem hasEmptySegment_iff {path : String} :
    HasEmptySegment r path ↔ "" ∈ spaceNames r path := by
  have hne : r.separators.nested ≠ "" := r.config.distinct.1
  have hsep : r.separators.nested.toList ≠ [] := by simpa using hne
  unfold HasEmptySegment spaceNames
  by_cases hp : path = ""
  · simp [hp]
  · have hmem : "" ∈ segments r path ↔
        [] ∈ Text.split r.separators.nested.toList path.toList := by
      simp [segments, String.ofList_eq_empty_iff]
    rw [if_neg hp, hmem]
    constructor
    · rintro ⟨-, pieces, hsplits, hempty⟩
      rwa [← hsplits.eq_split hsep]
    · exact fun hempty => ⟨hp, _, Text.splits_split hsep _, hempty⟩

/-- A path without empty segments is that of what its names lead to from the root. -/
theorem Rooted.path_of_spaceNames {path : String} (h : Rooted r c n)
    (hempty : ¬ HasEmptySegment r path)
    (hm : c.walk? (c.root r) (spaceNames r path) = some m) : c.path m = path := by
  rw [hasEmptySegment_iff] at hempty
  rw [h.root.path_of_walk? hm, h.path_root]
  exact spacePath_spaceNames fun name hname hnone => hempty (hnone ▸ hname)

/-- Without empty segments a path is followed to its end. -/
theorem Rooted.ensureNamespace_eq_ok {path : String} (h : Rooted r c n)
    (hempty : ¬ HasEmptySegment r path) :
    ∃ m c', ensureNamespace r path c = (.ok m, c') ∧
      Proceeds r (c.root r) (spaceNames r path) c m c' := by
  rw [hasEmptySegment_iff] at hempty
  rw [ensureNamespace_eq]
  exact Rooted.ensure_names path hempty h.root

/-- Where the names of a path lead along the lists already, nothing is made. -/
theorem ensureNamespace_of_walk? {path : String} (hempty : ¬ HasEmptySegment r path)
    (hm : c.walk? (c.root r) (spaceNames r path) = some m) :
    ensureNamespace r path c = (.ok m, c) := by
  rw [hasEmptySegment_iff] at hempty
  rw [ensureNamespace_eq]
  exact ensure_names_of_walk? r path hempty hm

end Catalog

/-! ### Sessions -/

namespace Session

open Catalog

variable {s : Session} {r : Registry}

theorem Reachable.rooted (h : s.Reachable) (ho : s.catalog.Opened r)
    (hown : ∀ n, s.catalog.Under r n → (s.catalog.entity n).home = r) :
    Rooted r s.catalog (s.catalog.root r) :=
  ⟨(Reachable.sound h).wellFormed, Reachable.slotsHold h, ho, fun {n} => hown n, .refl⟩

/-- **In every session in which all that is found below the root belongs to the registry, asking for
the namespace at a path is refused exactly if the path has an empty segment.**  Else it answers with
a namespace that has just the path that was asked for, the root for the empty one, and asking once
more answers the same and changes nothing at all. -/
theorem namespace_at_path_asked_for (h : s.Reachable) (ho : s.catalog.Opened r)
    (hown : ∀ n, s.catalog.Under r n → (s.catalog.entity n).home = r) (path : String) :
    ((∃ fault c', ensureNamespace r path s.catalog = (.error fault, c') ∧
        fault.word = "ManifestError") ↔ HasEmptySegment r path) ∧
    (∀ fault c', ensureNamespace r path s.catalog = (.error fault, c') →
      fault = .manifest (.emptySegment path) (some .namespaces)) ∧
    (¬ HasEmptySegment r path → ∃ n c', ensureNamespace r path s.catalog = (.ok n, c') ∧
      (c'.entity n).isSpace = true ∧ (c'.entity n).home = r ∧ c'.path n = path ∧
      (path = "" → n = s.catalog.root r ∧ c' = s.catalog) ∧
      ensureNamespace r path c' = (.ok n, c')) := by
  have hrooted := Reachable.rooted h ho hown
  have hok : ¬ HasEmptySegment r path → ∃ n c', ensureNamespace r path s.catalog = (.ok n, c') ∧
      (c'.entity n).isSpace = true ∧ (c'.entity n).home = r ∧ c'.path n = path ∧
      (path = "" → n = s.catalog.root r ∧ c' = s.catalog) ∧
      ensureNamespace r path c' = (.ok n, c') := by
    intro hempty
    obtain ⟨n, c', hrun, hway⟩ := hrooted.ensureNamespace_eq_ok hempty
    obtain ⟨hn, hext⟩ := hway.rooted hrooted
    have hwalk := hway.walk? hrooted
    rw [← hext.root] at hwalk
    refine ⟨n, c', hrun, hn.isSpace, hn.own hn.under, hn.path_of_spaceNames hempty hwalk, ?_,
      ensureNamespace_of_walk? hempty hwalk⟩
    rintro rfl
    cases hrun
    exact ⟨rfl, rfl⟩
  have hrefused : HasEmptySegment r path → ∃ c', ensureNamespace r path s.catalog =
      (.error (.manifest (.emptySegment path) (some .namespaces)), c') := by
    intro hempty
    rw [ensureNamespace_eq]
    exact hrooted.ensure_names_refused path (hasEmptySegment_iff.1 hempty)
  -- one of the two is the case, and a run ends in one way only
  have hfault : ∀ {fault c'}, ensureNamespace r path s.catalog = (.error fault, c') →
      HasEmptySegment r path := by
    intro fault c' hrun
    by_contra hempty
    obtain ⟨n, c'', hrun', -⟩ := hok hempty
    exact nomatch hrun.symm.trans hrun'
  refine ⟨⟨fun ⟨_, _, hrun, _⟩ => hfault hrun, fun hempty => ?_⟩, ?_, hok⟩
  · obtain ⟨c', hrun⟩ := hrefused hempty
    exact ⟨_, c', hrun, rfl⟩
  · intro fault c' hrun
    obtain ⟨c'', hrun'⟩ := hrefused (hfault hrun)
    cases hrun.symm.trans hrun'
    rfl

/-- Below the root there is a method of the name that is asked for, and the second name begins with
a part of the separator. -/
theorem namespace_at_path_asked_for_overlapping :
    let r : Registry := ⟨0, {}⟩
    let act (s : Session) (op : Operation) : Session :=
      { s with catalog := (op.action s.catalog).2 }
    let shop : Origin := { owner? := some ⟨0⟩, name := .text "Shop" }
    let s₁ := act {} (.openRegistry {})
    let s₂ := act s₁ (.makeMethod shop (.text "instance"))
    let c := s₂.catalog
    s₂.Reachable ∧ c.Opened r ∧ (∀ n, c.Under r n → (c.entity n).home = r) ∧
      (∃ fault c', ensureNamespace r "Shop::::Cart" c = (.error fault, c') ∧
        fault.word = "ManifestError") ∧
      ∃ n c', ensureNamespace r "Shop:::Cart" c = (.ok n, c') ∧ c'.path n = "Shop:::Cart" ∧
        (c'.entity n).name = ":Cart" ∧ ensureNamespace r "Shop:::Cart" c' = (.ok n, c') := by
  intro r act shop s₁ s₂ c
  have hroot : s₁.catalog.Knows ⟨0⟩ ∧ (s₁.catalog.entity ⟨0⟩).isSpace = true := by
    decide +kernel
  have h₁ : s₁.Reachable := .single (.act (.openRegistry {}) trivial)
  have h₂ : s₂.Reachable := .tail h₁ (.act (.makeMethod shop _)
    ⟨fun n h => by cases h; exact hroot, fun _ h => by cases h⟩)
  have ho : c.Opened r := ⟨by decide +kernel, by decide +kernel, by decide +kernel⟩
  have hown := (Reachable.sound h₂).wellFormed.own_of_sole ho (by decide +kernel)
  have hempty : HasEmptySegment r "Shop::::Cart" :=
    hasEmptySegment_iff.2 (by decide +kernel)
  have hnone : ¬ HasEmptySegment r "Shop:::Cart" :=
    fun hempty => absurd (hasEmptySegment_iff.1 hempty) (by decide +kernel)
  obtain ⟨n, c', hrun, -, -, hpath, -, hagain⟩ :=
    (namespace_at_path_asked_for h₂ ho hown "Shop:::Cart").2.2 hnone
  refine ⟨h₂, ho, hown, (namespace_at_path_asked_for h₂ ho hown "Shop::::Cart").1.2 hempty,
    n, c', hrun, hpath, ?_, hagain⟩
  have hname : ((ensureNamespace r "Shop:::Cart" c).2.entity ⟨3⟩).name = ":Cart" := by
    decide +kernel
  have hlast : (ensureNamespace r "Shop:::Cart" c).1.toOption = some ⟨3⟩ := by decide +kernel
  rw [hrun] at hname hlast
  cases hlast
  exact hname

end Session

end DocCatalog
