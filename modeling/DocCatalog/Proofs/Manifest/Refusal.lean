/-
**A manifest is refused for nothing but what is wrong with it.**

Whatever a manifest is made of, what stops its loading is a problem with the manifest or a word that
spells no scope or no visibility.  None of the other faults comes up: a parameter is checked before
it is set, a name is a text and so can be a key, a member is made below an owner and so has a
registry.  One more could come up, that of registering what belongs to another registry, for a new
member belongs to the registry of its owner.  It does not if all namespaces that are listed below
the root belong to the registry, and loading keeps it so.

Main definitions:

* `Catalog.Under`: a namespace that is found from the root of a registry along the member lists;
* `Catalog.Contained`: a registry has all that is found below its root, and all that was made since
  some earlier time;
* `Manifest.Refusal`: the faults that are those of a manifest.

Main results:

* `Catalog.upheld_contained`: loading keeps a registry contained;
* `Manifest.load_makes_own`: what is made by loading belongs to the registry;
* `Manifest.load_refused_by_manifest`: **a manifest is loaded or refused, and nothing else
  happens**.
-/

import DocCatalog.Proofs.Manifest.Upholding
import DocCatalog.Proofs.Registry.Keys

set_option autoImplicit false

namespace DocCatalog

/-- The faults that are those of a manifest: it is malformed, or an entry of it has a word that
spells no scope or no visibility. -/
inductive Manifest.Refusal (data : Value) : Fault → Prop where
  | malformed (problem : Problem) (part? : Option Part) : Refusal data (.manifest problem part?)
  | scope {entry : Fields} (part : Part) (hp : part = .methods ∨ part = .attributes)
      (he : entry ∈ entriesIn data part) (hno : scopeOf? entry = none) :
      Refusal data (.notScope (scopeField entry))
  | visibility {entry : Fields} {v : Value} (he : entry ∈ entriesIn data .methods)
      (hv : Value.field? entry "visibility" = some v) (hno : Visibility.ofValue? v = none) :
      Refusal data (.notVisibility v)

namespace Catalog

variable {c c' c₀ : Catalog} {r : Registry} {e m n : EntityId} {x : Entity}

/-! ### Namespaces below the root -/

/-- A namespace lists another. -/
def Nests (c : Catalog) (n m : EntityId) : Prop :=
  (∃ k, (c.slots n).get? k = some m) ∧ (c.entity m).isSpace = true

/-- The root of a registry, and every namespace that is found from there along the member lists. -/
def Under (c : Catalog) (r : Registry) (n : EntityId) : Prop :=
  Relation.ReflTransGen c.Nests (c.root r) n

theorem Under.known (h : c.Under r n) (hc : c.WellFormed) (ho : c.Opened r) :
    c.Knows n ∧ (c.entity n).isSpace = true := by
  induction h with
  | refl =>
      obtain ⟨hk, hkind⟩ := hc.root ho.lt
      exact ⟨hk, isSpace_iff.2 (.inr hkind)⟩
  | tail _ hm _ =>
      obtain ⟨⟨k, hslot⟩, hspace⟩ := hm
      exact ⟨hc.knows_slot hslot, hspace⟩

/-- Of a way that comes to its end more than once, the part up to the first time is enough. -/
theorem first_visit {α : Type} {R : α → α → Prop} {a b : α} (h : Relation.ReflTransGen R a b) :
    Relation.ReflTransGen (fun x y => R x y ∧ x ≠ b) a b := by
  induction h using Relation.ReflTransGen.head_induction_on with
  | refl => exact .refl
  | @head x y hxy _ ih =>
      by_cases hx : x = b
      · rw [hx]
      · exact .head ⟨hxy, hx⟩ ih

theorem Retouches.under (ht : Retouches e c c') : c'.Under r n ↔ c.Under r n := by
  have hn : c'.Nests = c.Nests := by
    funext n m
    rw [Nests, Nests, ht.slots, Entity.isSpace_eq_of_settled (ht.settled m)]
  rw [Under, Under, hn, ht.root]

/-! ### Listing one entity -/

/-- A change that lists one entity in its owner; the entity may be new. -/
structure Lists (r : Registry) (e : EntityId) (c c' : Catalog) : Prop where
  writes : Writes c c'
  root : c'.root r = c.root r
  others : ∀ {e'}, c'.Knows e' → e' ≠ e → c.Knows e'
  identity : ∀ {e'}, c.Knows e' → (c'.entity e').identity = (c.entity e').identity
  slots : ∀ n k, (c'.slots n).get? k =
    if (c'.entity e).owner? = some n ∧ (c'.entity e).memberKey = k then some e
    else (c.slots n).get? k

namespace Lists

theorem nests (hl : Lists r e c c') (hc : c.WellFormed) (h : c.Nests n m)
    (hn : (c'.entity e).owner? ≠ some n) : c'.Nests n m := by
  obtain ⟨⟨k, hk⟩, hs⟩ := h
  exact ⟨⟨k, by rw [hl.slots, if_neg fun h => hn h.1, hk]⟩,
    by rw [hl.writes.later.isSpace (hc.knows_slot hk), hs]⟩

/-- The list of a namespace is not needed to come to the namespace. -/
theorem under_owner (hl : Lists r e c c') (hc : c.WellFormed) (hn : c.Under r n)
    (ho : (c'.entity e).owner? = some n) : c'.Under r n := by
  rw [Under, hl.root]
  refine Relation.ReflTransGen.mono (fun x y hxy => ?_) _ _ (first_visit hn)
  exact hl.nests hc hxy.1 fun hx => hxy.2 (Option.some.inj (hx.symm.trans ho))

/-- A namespace that is listed is found wherever its owner was. -/
theorem under (hl : Lists r e c c') (hc : c.WellFormed) (hn : c.Under r n)
    (ho : (c'.entity e).owner? = some n) (hs : (c'.entity e).isSpace = true) : c'.Under r e :=
  (hl.under_owner hc hn ho).tail ⟨⟨_, by rw [hl.slots, if_pos ⟨ho, rfl⟩]⟩, hs⟩

/-- If what is listed has no members, nothing else is newly found. -/
theorem under_of (hl : Lists r e c c') (hc : c.WellFormed) (hbare : ∀ k, (c.slots e).get? k = none)
    (h : c'.Under r n) : n = e ∨ c.Under r n := by
  rw [Under, hl.root] at h
  induction h with
  | refl => exact .inr .refl
  | @tail n m _ hm ih =>
      obtain ⟨⟨k, hk⟩, hs⟩ := hm
      rw [hl.slots] at hk
      split at hk
      · cases hk
        exact .inl rfl
      · rcases ih with rfl | ih
        · exact nomatch (hbare k).symm.trans hk
        · rw [hl.writes.later.isSpace (hc.knows_slot hk)] at hs
          exact .inr (ih.tail ⟨⟨k, hk⟩, hs⟩)

end Lists

theorem lists_founded (hw : Writes c (c.founded x)) (hs : x.slots = ∅)
    (ho : ∀ n, x.owner? = some n → c.Knows n ∧ (c.entity n).isSpace = true) :
    Lists r ⟨c.entities.size⟩ c (c.founded x) where
  writes := hw
  root := root_congr (stock_adoptByOwner _ _) r
  others hk hne := knows_of_founded hne hk
  identity hk := by
    refine Entity.identity_eq_of_bare ?_
    rw [bare_founded, if_neg (Nat.ne_of_lt hk)]
  slots n k := by
    have hself : (c.add x).2.entity ⟨c.entities.size⟩ = x := by rw [entity_add, if_pos rfl]
    have hid := Entity.identity_eq_of_bare (c.bare_founded_self x)
    have hspace : ∀ n, ((c.add x).2.entity ⟨c.entities.size⟩).owner? = some n →
        ((c.add x).2.entity n).isSpace = true := by
      intro n hn
      rw [hself] at hn
      rw [entity_add_of_knows x (ho n hn).1, (ho n hn).2]
    rw [founded, get?_slots_adoptByOwner _ n k hspace, ← founded, hself, slots_add c hs,
      Entity.owner?_eq_of_settled (Entity.settled_eq_of_identity hid),
      Entity.memberKey_eq_of_identity hid]

theorem lists_enter (hc : c.WellFormed) (hk : c.Knows e) (hh : (c.entity e).home = r) :
    Lists r e c (c.enter r e) where
  writes := writes_enter hk hh
  root := c.root_enter r e
  others hk _ := by rwa [Knows, size_enter] at hk
  identity _ := c.identity_enter r e _
  slots n k := by
    have hid := c.identity_enter r e e
    rw [get?_slots_enter r n k fun n hn => (hc.knows_owner hk hn).2,
      Entity.owner?_eq_of_settled (Entity.settled_eq_of_identity hid),
      Entity.memberKey_eq_of_identity hid]

/-! ### Making a member -/

/-- What is made below a namespace of a registry, and has no members yet. -/
structure Made (r : Registry) (n e : EntityId) (c : Catalog) : Prop where
  knows : c.Knows e
  home : (c.entity e).home = r
  owner : (c.entity e).owner? = some n
  under : c.Under r n
  vacant : ∀ k, (c.slots e).get? k = none

theorem Made.retouch {e' : EntityId} (ht : Retouches e' c c') (h : Made r n e c) :
    Made r n e c' where
  knows := ht.knows.2 h.knows
  home := (Entity.home_eq_of_settled (ht.settled e)).trans h.home
  owner := (Entity.owner?_eq_of_settled (ht.settled e)).trans h.owner
  under := ht.under.2 h.under
  vacant k := by rw [ht.slots, h.vacant]

/-- What was not given out has no members. -/
theorem get?_slots_of_not_knows (h : ¬ c.Knows e) (k : String × Option Scope) :
    (c.slots e).get? k = none := by
  rw [slots, entity_of_not_knows h]
  rfl

/-- A member is always made below a namespace of the registry, and belongs to the registry. -/
theorem make_below {kind : EntityKind} {form : Registry → Form} {o : Origin} (hc : c.WellFormed)
    (hopen : c.Opened r) (hn : c.Under r n) (hh : (c.entity n).home = r) (ho : o.owner? = some n)
    (hr : o.registry? = none) (hk : ∀ home, (c.newEntity o home form).kind ≠ .root)
    (hs : ∀ home, (c.newEntity o home form).slots = ∅) :
    ∃ e c', make kind form o c = (.ok e, c') ∧ ¬ c.Knows e ∧ c'.stock = c.stock ∧
      Lists r e c c' ∧ Made r n e c' ∧
      (c'.entity e).identity = (c.newEntity o r form).identity := by
  have hhome : c.homeOf? o = some r := by simp [homeOf?, ho, hr, hh]
  have hown := c.owner?_newEntity o r form
  have hknown : ∀ m, o.owner? = some m → c.Knows m ∧ (c.entity m).isSpace = true := by
    rintro m hm
    obtain rfl : n = m := Option.some.inj (ho.symm.trans hm)
    exact hn.known hc hopen
  have hw : Writes c (c.founded (c.newEntity o r form)) := by
    have hgiven : o.Known c := by
      refine ⟨hknown, fun r' hr' => ?_⟩
      rw [hr] at hr'
      cases hr'
    have hlead : (make kind form o).Leads c _ := leads_make hgiven hk hs
    have hw := (hlead hc).1
    rwa [make_of_homeOf? hhome] at hw
  have hl : Lists r ⟨c.entities.size⟩ c (c.founded (c.newEntity o r form)) :=
    lists_founded hw (hs r) (by rwa [hown])
  have hid := Entity.identity_eq_of_bare (c.bare_founded_self (c.newEntity o r form))
  have hset := Entity.settled_eq_of_identity hid
  have hunknown : ¬ c.Knows ⟨c.entities.size⟩ := Nat.lt_irrefl _
  have howner : ((c.founded (c.newEntity o r form)).entity ⟨c.entities.size⟩).owner? = some n :=
    (Entity.owner?_eq_of_settled hset).trans (hown.trans ho)
  refine ⟨_, _, make_of_homeOf? hhome, hunknown, stock_adoptByOwner _ _, hl, ⟨c.knows_founded _,
    Entity.home_eq_of_settled hset, howner, hl.under_owner hc hn howner, fun k => ?_⟩, hid⟩
  -- the owner was there before, so what is new is not its own owner
  have hne : n ≠ ⟨c.entities.size⟩ := by
    rintro rfl
    exact hunknown (hn.known hc hopen).1
  have hlisted : ¬ (((c.founded (c.newEntity o r form)).entity ⟨c.entities.size⟩).owner? =
      some ⟨c.entities.size⟩ ∧ ((c.founded (c.newEntity o r form)).entity
        ⟨c.entities.size⟩).memberKey = k) :=
    fun hself => hne (Option.some.inj (howner.symm.trans hself.1))
  exact (hl.slots _ k).trans ((if_neg hlisted).trans (get?_slots_of_not_knows hunknown k))

/-! ### A registry of its own -/

/-- All namespaces that are found below the root of a registry belong to it, and so does all that
was made since some earlier time. -/
structure Contained (r : Registry) (c₀ c : Catalog) : Prop where
  wellFormed : c.WellFormed
  opened : c.Opened r
  own : ∀ {n}, c.Under r n → (c.entity n).home = r
  since : ∀ {e}, c.Knows e → ¬ c₀.Knows e → (c.entity e).home = r

namespace Contained

theorem retouch (ht : Retouches e c c') (h : Contained r c₀ c) : Contained r c₀ c' where
  wellFormed := ht.writes.wellFormed h.wellFormed
  opened := ht.writes.later.opened h.opened
  own hn := by
    rw [Entity.home_eq_of_settled (ht.settled _)]
    exact h.own (ht.under.1 hn)
  since hk hnew := by
    rw [Entity.home_eq_of_settled (ht.settled _)]
    exact h.since (ht.knows.1 hk) hnew

/-- Listing an entity of the registry that has no members. -/
theorem list (h : Contained r c₀ c) (hl : Lists r e c c') (hbare : ∀ k, (c.slots e).get? k = none)
    (hh : (c'.entity e).home = r) : Contained r c₀ c' where
  wellFormed := hl.writes.wellFormed h.wellFormed
  opened := hl.writes.later.opened h.opened
  own hn := by
    rcases hl.under_of h.wellFormed hbare hn with rfl | hn
    · exact hh
    · rw [hl.writes.later.home (hn.known h.wellFormed h.opened).1, h.own hn]
  since {e'} hk hnew := by
    by_cases he : e' = e
    · rw [he, hh]
    · have hk := hl.others hk he
      rw [hl.writes.later.home hk, h.since hk hnew]

end Contained

open DocCatalog.Action (Ends)

/-- Making a member below a namespace keeps the registry contained. -/
theorem Contained.ends_make {kind : EntityKind} {form : Registry → Form} {o : Origin}
    (h : Contained r c₀ c) (hn : c.Under r n) (ho : o.owner? = some n) (hr : o.registry? = none)
    (hk : ∀ home, (c.newEntity o home form).kind ≠ .root)
    (hs : ∀ home, (c.newEntity o home form).slots = ∅) :
    (make kind form o).Ends c (fun e c' => Contained r c₀ c' ∧ Made r n e c' ∧
      (c'.entity e).isSpace = (c.newEntity o r form).isSpace) fun _ _ => False := by
  obtain ⟨e, c', hrun, hunknown, -, hl, hmade, hid⟩ :=
    make_below h.wellFormed h.opened hn (h.own hn) ho hr hk hs
  exact .of_ok hrun ⟨h.list hl (get?_slots_of_not_knows hunknown) hmade.home, hmade,
    Entity.isSpace_eq_of_settled (Entity.settled_eq_of_identity hid)⟩

/-- What is made below a namespace of the registry is never refused by the registry. -/
theorem Contained.ends_register (h : Contained r c₀ c) (hm : Made r n m c) :
    (register r m).Ends c (fun _ c' => Contained r c₀ c' ∧
      ((c.entity m).isSpace = true → c'.Under r m)) fun _ _ => False := by
  have hl := lists_enter h.wellFormed hm.knows hm.home
  have hset := Entity.settled_eq_of_identity (c.identity_enter r m m)
  refine .of_ok (register_of_home hm.home)
    ⟨h.list hl hm.vacant ((Entity.home_eq_of_settled hset).trans hm.home), fun hs => ?_⟩
  exact hl.under h.wellFormed hm.under ((Entity.owner?_eq_of_settled hset).trans hm.owner)
    ((Entity.isSpace_eq_of_settled hset).trans hs)

theorem Contained.ends_ensureNested (h : Contained r c₀ c) (hn : c.Under r n) (name : String) :
    (ensureNested r n name).Ends c (fun e c' => Contained r c₀ c' ∧ c'.Under r e)
      fun _ _ => False := by
  refine Ends.get ?_
  split
  · next e he =>
      obtain ⟨⟨k, -, hk⟩, hs⟩ := slot_of_nestedSpace? he
      exact .pure ⟨h, hn.tail ⟨⟨k, hk⟩, hs⟩⟩
  · refine .bind (h.ends_make hn rfl rfl (fun _ => by simp [newEntity, Entity.kind])
      fun _ => rfl) ?_
    rintro e c₁ ⟨h₁, hmade, hs⟩
    refine .bind (h₁.ends_register hmade) ?_
    rintro - c₂ ⟨h₂, hunder⟩
    exact .pure ⟨h₂, hunder hs⟩

/-- **Loading keeps a registry contained**, and is stopped by nothing but the manifest. -/
theorem upheld_contained (r : Registry) (data : Value) (c₀ : Catalog) :
    Manifest.Upheld r data (fun n c => Contained r c₀ c ∧ c.Under r n)
      (fun m c => Contained r c₀ c ∧ ∃ n, Made r n m c) (Manifest.Refusal data) where
  root h := ⟨h.1, .refl⟩
  made_root h := ⟨h.1, .refl⟩
  retouch ht h := ⟨h.1.retouch ht, ht.under.2 h.2⟩
  made_retouch ht h := ⟨h.1.retouch ht, h.2.imp fun _ hm => hm.retouch ht⟩
  nested _ h := (h.1.ends_ensureNested h.2 _).mono (fun _ _ h => h) fun _ _ h => h.elim
  make {n c name entry} hentry h := by
    unfold makeMethod
    split
    · next hno => exact .throw ⟨.scope .methods (by simp) hentry hno, h.1, .refl⟩
    · refine (h.1.ends_make h.2 rfl rfl (fun _ => by simp [newEntity, Entity.kind])
        fun _ => rfl).mono ?_ fun _ _ h => h.elim
      exact fun _ _ h => ⟨h.1, n, h.2.1⟩
  register := by
    rintro m c ⟨h, n, hm⟩
    exact (h.ends_register hm).mono (fun _ _ h => ⟨h.1, .refl⟩) fun _ _ h => h.elim
  malformed := .malformed
  scope := .scope .attributes (by simp)
  visibility := .visibility

end Catalog

namespace Manifest

open Catalog

variable {c : Catalog} {r : Registry} {s : Session} {data : Value}

/-- The fault of a manifest is an error of the catalog itself: of the manifest, or of a field that
has a value outside its closed set. -/
theorem Refusal.report {fault : Fault} (h : Refusal data fault) :
    ∃ report, fault.report? = some report ∧
      (report.kind = .manifest ∨ report.kind = .invalidField) := by
  cases h with
  | malformed problem part? => exact ⟨_, rfl, .inl rfl⟩
  | scope part hpart hentry hno => exact ⟨_, rfl, .inr rfl⟩
  | visibility hentry hv hno => exact ⟨_, rfl, .inr rfl⟩

theorem contained_of_own (hc : c.WellFormed) (ho : c.Opened r)
    (hown : ∀ n, c.Under r n → (c.entity n).home = r) : Contained r c c :=
  ⟨hc, ho, fun {n} => hown n, fun hk hnew => absurd hk hnew⟩

/-- **What is made by loading belongs to the registry**, whether the manifest is accepted or
refused. -/
theorem load_makes_own (data : Value) (hc : c.WellFormed) (ho : c.Opened r)
    (hown : ∀ n, c.Under r n → (c.entity n).home = r) {e : EntityId}
    (hk : (load r data c).2.Knows e) (hnew : ¬ c.Knows e) :
    ((load r data c).2.entity e).home = r := by
  have hends := (upheld_contained r data c).ends_load ⟨contained_of_own hc ho hown, .refl⟩
  have hkept : Contained r c (load r data c).2 :=
    Action.Ends.run (hends.mono (fun _ _ h => h.1) fun _ _ h => h.2.1)
  exact hkept.since hk hnew

/-- The report of the fault that something ends with, if it ends with one. -/
def reportOf? {α : Type} : Except Fault α → Option Report
  | .error fault => fault.report?
  | .ok _ => none

/-- **A manifest is loaded or refused, and nothing else happens**: whatever it is made of, it is
loaded, or it is refused as a manifest, or else for a scope or a visibility that is none, in every
session in which the namespaces that are found below the root belong to the registry. -/
theorem load_refused_by_manifest (h : s.Reachable) (ho : s.catalog.Opened r)
    (hown : ∀ n, s.catalog.Under r n → (s.catalog.entity n).home = r) (data : Value) :
    (load r data s.catalog).1 = .ok () ∨
      ∃ fault report, (load r data s.catalog).1 = .error fault ∧ Refusal data fault ∧
        fault.report? = some report ∧ (report.kind = .manifest ∨ report.kind = .invalidField) := by
  have hends := (upheld_contained r data s.catalog).ends_load
    ⟨contained_of_own (Session.Reachable.sound h).wellFormed ho hown, .refl⟩
  unfold Action.Ends at hends
  rcases hrun : load r data s.catalog with ⟨fault | _, c⟩ <;> rw [hrun] at hends
  · obtain ⟨report, hreport, hkind⟩ := hends.1.report
    exact .inr ⟨fault, report, rfl, hends.1, hreport, hkind⟩
  · exact .inl rfl

/-- A manifest with parameters of the right kind, in a registry with one other namespace, that is
refused for the scope of its second method. -/
theorem load_refused_by_manifest_for_scope :
    let r : Registry := ⟨0, {}⟩
    let act (s : Session) (op : Operation) : Session :=
      { s with catalog := (op.action s.catalog).2 }
    let s₁ := act {} (.openRegistry {})
    let s₂ := act s₁ (.ensureNamespace r "Shop")
    let total : Value := .dict [("name", .text "total"), ("parameters", .list [.text "tax"])]
    let item : Value := .dict [("name", .text "item"), ("scope", .text "module")]
    let data : Value := .dict [("methods", .list [total, item])]
    s₂.Reachable ∧ s₂.catalog.Opened r ∧ s₂.catalog.nestedSpace? ⟨0⟩ "Shop" = some ⟨1⟩ ∧
      ∃ fault, (load r data s₂.catalog).1 = .error fault ∧ Refusal data fault ∧
        fault.report? =
          some (.invalidField "scope" (.text "module") (Scope.all.map Scope.word)) := by
  intro r act s₁ s₂ total item data
  have ho₁ : s₁.catalog.Opened r := ⟨by decide +kernel, by decide +kernel, by decide +kernel⟩
  have h₁ : s₁.Reachable := .single (.act (.openRegistry {}) trivial)
  have h₂ : s₂.Reachable := .tail h₁ (.act (.ensureNamespace r "Shop") ho₁)
  have ho₂ : s₂.catalog.Opened r := ⟨by decide +kernel, by decide +kernel, by decide +kernel⟩
  have hall : ∀ i < 2, (s₂.catalog.entity ⟨i⟩).home = r := by decide +kernel
  have hsize : s₂.catalog.entities.size = 2 := by decide +kernel
  have hown : ∀ n, s₂.catalog.Under r n → (s₂.catalog.entity n).home = r := by
    intro n hn
    have hk := (hn.known (Session.Reachable.sound h₂).wellFormed ho₂).1
    rw [Knows, hsize] at hk
    exact hall n.index hk
  have htold : reportOf? (load r data s₂.catalog).1 =
      some (.invalidField "scope" (.text "module") (Scope.all.map Scope.word)) := by decide +kernel
  refine ⟨h₂, ho₂, by decide +kernel, ?_⟩
  rcases load_refused_by_manifest h₂ ho₂ hown data with hok | ⟨fault, report, hfault, hrefusal, -⟩
  · rw [hok] at htold
    cases htold
  · rw [hfault] at htold
    exact ⟨fault, hfault, hrefusal, htold⟩

end Manifest

end DocCatalog
