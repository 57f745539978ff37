/-
**What the member list of a namespace tells.**

A namespace can be asked for its members, for its methods of a scope and for the member of a name
and a scope.  The answers come from slots whose keys hold a scope that may have changed since the
slot was taken.  As every slot is that of the key which its entity has now, the answers agree with
each other and with the entities themselves.

Main results:

* `Catalog.SlotsHold.nodup_members`, `Catalog.SlotsHold.owner_unique`: nothing is a member twice;
* `Catalog.SlotsHold.child_iff_mem_methods`: the member of a name and a scope is the method of that
  scope which has the name;
* `Session.members_under_own_key`: **in every session the members of a namespace are its own, each
  under its own key**.
-/

import DocCatalog.Proofs.Catalog.Slots
import DocCatalog.Proofs.Registry.Keys
import Mathlib.Data.List.Nodup

set_option autoImplicit false

namespace DocCatalog

/-! ### Values of a table -/

namespace OrderedTable

variable {κ α : Type} [DecidableEq κ]

theorem mem_values {t : OrderedTable κ α} {v : α} : v ∈ t.values ↔ ∃ k, t.get? k = some v := by
  simp only [values, List.mem_map, Prod.exists, get?_eq_some_iff, exists_eq_right]

/-- No value is listed twice if none is at two keys. -/
theorem nodup_values {t : OrderedTable κ α}
    (h : ∀ k k' v, t.get? k = some v → t.get? k' = some v → k = k') : t.values.Nodup := by
  refine List.Nodup.map_on ?_ t.nodup.of_map
  rintro ⟨k, v⟩ hp ⟨k', v'⟩ hq (rfl : v = v')
  rw [h k k' v ((t.get?_eq_some_iff k v).2 hp) ((t.get?_eq_some_iff k' v).2 hq)]

end OrderedTable

namespace Catalog

variable {c : Catalog} {e n n' : EntityId} {s : Scope} {v : Value}

/-! ### Members -/

theorem mem_members : e ∈ c.members n ↔ ∃ k, (c.slots n).get? k = some e :=
  OrderedTable.mem_values

/-- No entity is listed twice in one namespace. -/
theorem SlotsHold.nodup_members (hs : c.SlotsHold) (n : EntityId) : (c.members n).Nodup := by
  refine OrderedTable.nodup_values fun k k' e he he' => ?_
  exact (hs.memberKey_eq (n := n) he).symm.trans (hs.memberKey_eq (n := n) he')

/-- No entity is listed in two namespaces. -/
theorem SlotsHold.owner_unique (hs : c.SlotsHold) (h : e ∈ c.members n) (h' : e ∈ c.members n') :
    n = n' := by
  obtain ⟨k, hk⟩ := mem_members.1 h
  obtain ⟨k', hk'⟩ := mem_members.1 h'
  exact Option.some.inj ((hs.owner?_eq hk).symm.trans (hs.owner?_eq hk'))

/-- The slot that a member has is that of the key which it has now. -/
theorem SlotsHold.slot_iff (hs : c.SlotsHold) {k : String × Option Scope} :
    (c.slots n).get? k = some e ↔ e ∈ c.members n ∧ (c.entity e).memberKey = k := by
  constructor
  · intro h
    exact ⟨mem_members.2 ⟨k, h⟩, hs.memberKey_eq h⟩
  · rintro ⟨hmem, rfl⟩
    obtain ⟨k, hk⟩ := mem_members.1 hmem
    rwa [hs.memberKey_eq hk]

/-! ### Methods of a scope -/

theorem scopeArgument_of_ofValue? (h : Scope.ofValue? v = some s) :
    scopeArgument v = .ok (some s) := by
  unfold scopeArgument
  split
  · cases h
  · rw [Scope.ofValue, h]
    rfl

theorem isMethodOf_scope (x : Entity) (s : Scope) :
    isMethodOf x (some s) none = decide (x.scope? = some s) := by
  unfold isMethodOf Entity.scope?
  cases x.method? with
  | none => rfl
  | some m => simp [eq_comm]

/-- The methods of a scope are the members that have it now, in the order of the members. -/
theorem methods_of_scope (c : Catalog) (n : EntityId) (h : Scope.ofValue? v = some s) :
    c.methods n v .null =
      .ok ((c.members n).filter fun e => decide ((c.entity e).scope? = some s)) := by
  simp only [methods, scopeArgument_of_ofValue? h, visibilityArgument, ← isMethodOf_scope]
  rfl

theorem child_of_scope (c : Catalog) (n : EntityId) (name : String)
    (h : Scope.ofValue? v = some s) :
    c.child n (.text name) v = .ok ((c.slots n).get? (name, some s)) := by
  simp only [child, scopeArgument_of_ofValue? h]
  rfl

/-- The member of a name and a scope is the method of that scope which has the name. -/
theorem SlotsHold.child_iff_mem_methods (hs : c.SlotsHold) (name : String)
    (h : Scope.ofValue? v = some s) : c.child n (.text name) v = .ok (some e) ↔
      ∃ l, c.methods n v .null = .ok l ∧ e ∈ l ∧ (c.entity e).name = name := by
  rw [child_of_scope c n name h, methods_of_scope c n h]
  simp only [Except.ok.injEq, hs.slot_iff, exists_eq_left', List.mem_filter, decide_eq_true_eq,
    Entity.memberKey, Prod.mk.injEq]
  constructor
  · rintro ⟨hmem, hname, hscope⟩
    exact ⟨⟨hmem, hscope⟩, hname⟩
  · rintro ⟨⟨hmem, hscope⟩, hname⟩
    exact ⟨hmem, hname, hscope⟩

end Catalog

/-! ### Sessions -/

namespace Session

open Catalog

variable {s : Session}

theorem Reachable.slotsHold (h : s.Reachable) : s.catalog.SlotsHold :=
  (Reachable.writes h).slotsHold wellFormed_empty slotsHold_empty

/-- **In every session that can be come to, inside changes of path too, a namespace lists its own
members only, each under the key that the entity has.**  So no entity is a member twice, and the
methods of a scope and the member of a name and a scope are told by the entities as they are now. -/
theorem members_under_own_key (h : s.Reachable) :
    (∀ n k e, (s.catalog.tables n).members.get? k = some e →
      (s.catalog.entity e).owner? = some n ∧ (s.catalog.entity e).memberKey = k) ∧
    (∀ n, (s.catalog.members n).Nodup) ∧
    (∀ n n' e, e ∈ s.catalog.members n → e ∈ s.catalog.members n' → n = n') ∧
    (∀ n v scope, Scope.ofValue? v = some scope → s.catalog.methods n v .null =
      .ok ((s.catalog.members n).filter fun e => (s.catalog.entity e).scope? = some scope)) ∧
    ∀ n name v scope e, Scope.ofValue? v = some scope →
      (s.catalog.child n (.text name) v = .ok (some e) ↔
        ∃ l, s.catalog.methods n v .null = .ok l ∧ e ∈ l ∧ (s.catalog.entity e).name = name) := by
  have hs := Reachable.slotsHold h
  refine ⟨fun n k e he => ⟨hs.owner?_eq he, hs.memberKey_eq he⟩, hs.nodup_members, ?_, ?_, ?_⟩
  · exact fun n n' e hn hn' => hs.owner_unique hn hn'
  · exact fun n v scope hv => s.catalog.methods_of_scope n hv
  · exact fun n name v scope e hv => hs.child_iff_mem_methods name hv

/-- A method that another has displaced is given another scope, and then the scope of the other: it
stays out of the list, and the other stays the method of its scope. -/
theorem members_under_own_key_displaced :
    let act (s : Session) (op : Operation) : Session :=
      { s with catalog := (op.action s.catalog).2 }
    let s₁ := act {} (.openRegistry {})
    let run : Origin := { owner? := some ⟨0⟩, name := .text "run" }
    let s₂ := act s₁ (.makeMethod run (.text "instance"))
    let s₃ := act s₂ (.makeMethod run (.text ":INSTANCE"))
    let s₄ := act s₃ (.setScope ⟨1⟩ (.scope .onClass))
    let s₅ := act s₄ (.setScope ⟨1⟩ (.scope .onInstance))
    s₅.Reachable ∧ s₂.catalog.members ⟨0⟩ = [⟨1⟩] ∧
      s₅.catalog.methods ⟨0⟩ (.text "instance") .null = .ok [⟨2⟩] ∧
      s₅.catalog.child ⟨0⟩ (.text "run") (.text "instance") = .ok (some ⟨2⟩) ∧
      s₅.catalog.methods ⟨0⟩ (.text "class") .null = .ok [] := by
  intro act s₁ run s₂ s₃ s₄ s₅
  have hroot : ∀ {c : Catalog}, c.Knows ⟨0⟩ ∧ (c.entity ⟨0⟩).isSpace = true → run.Known c :=
    fun hc => ⟨fun n h => by cases h; exact hc, fun _ h => by cases h⟩
  have h₁ : s₁.Reachable := .single (.act (.openRegistry {}) trivial)
  have h₂ : s₂.Reachable := .tail h₁ (.act (.makeMethod run _) (hroot (by decide +kernel)))
  have h₃ : s₃.Reachable := .tail h₂ (.act (.makeMethod run _) (hroot (by decide +kernel)))
  have hk₃ : s₃.catalog.Knows ⟨1⟩ := by decide +kernel
  have h₄ : s₄.Reachable := .tail h₃ (.act (.setScope ⟨1⟩ _) hk₃)
  have hk₄ : s₄.catalog.Knows ⟨1⟩ := by decide +kernel
  have h₅ : s₅.Reachable := .tail h₄ (.act (.setScope ⟨1⟩ _) hk₄)
  obtain ⟨-, -, -, hmethods, hchild⟩ := members_under_own_key h₅
  have hinstance : Scope.ofValue? (.text "instance") = some .onInstance := by decide +kernel
  have hclass : Scope.ofValue? (.text "class") = some .onClass := by decide +kernel
  have hlist : s₅.catalog.methods ⟨0⟩ (.text "instance") .null = .ok [⟨2⟩] := by
    rw [hmethods ⟨0⟩ _ _ hinstance]
    exact congrArg Except.ok (by decide +kernel)
  refine ⟨h₅, by decide +kernel, hlist, ?_, ?_⟩
  · exact (hchild ⟨0⟩ "run" _ _ ⟨2⟩ hinstance).2 ⟨_, hlist, by simp, by decide +kernel⟩
  · rw [hmethods ⟨0⟩ _ _ hclass]
    exact congrArg Except.ok (by decide +kernel)

end Session

end DocCatalog
