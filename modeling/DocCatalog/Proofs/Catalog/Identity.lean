/-
**What identifies an entity, and which writes leave it alone.**

The path of an entity and its key among the members of its owner are computed from its name, its
registry, its owners, its kind and, for a method, its scope.  All of these but the scope are settled
when the entity is made.  This module says of every write to a catalog what it does to three views
of it: the identities of the entities, the slots of the member lists, and the entries of the
registries.

Main definitions:

* `Settled`, `Identity`: what is settled when an entity is made, and what its path is computed from;
* `Entity.bare`: an entity without what it keeps about its members;
* `Catalog.slots`: the members of a namespace by name and scope;
* `Catalog.put`: a registry takes an entity at its path.

Main results:

* `Entity.path_eq_of_identity`, `Entity.memberKey_eq_of_identity`: identity settles path and key;
* `Catalog.bare_adoptByOwner` and its like: writes to member lists change nothing else;
* `Catalog.slots_adopt`, `Catalog.slots_dismiss`, `Catalog.slots_moveMember`: what they do to slots.
-/

import DocCatalog.Catalog.Methods
import DocCatalog.Catalog.Making

set_option autoImplicit false

namespace DocCatalog

/-! ### Identity -/

/-- What is settled when an entity is made. -/
structure Settled where
  name : String
  home : Registry
  /-- The owner and its owners, nearest first. -/
  lineage : List Ancestor
  kind : EntityKind

/-- What the path of an entity is computed from. -/
structure Identity extends Settled where
  scope? : Option Scope

namespace Entity

/-- What was settled when an entity was made. -/
def settled (x : Entity) : Settled := ⟨x.name, x.home, x.lineage, x.kind⟩

/-- What the path of an entity is computed from. -/
def identity (x : Entity) : Identity := ⟨x.settled, x.scope?⟩

/-- An entity without what it keeps about its members. -/
def bare (x : Entity) : Entity := x.updateTables fun _ => {}

variable {x y : Entity}

theorem settled_eq_of_identity (h : x.identity = y.identity) : x.settled = y.settled :=
  congrArg Identity.toSettled h

theorem name_eq_of_settled (h : x.settled = y.settled) : x.name = y.name :=
  congrArg Settled.name h

theorem home_eq_of_settled (h : x.settled = y.settled) : x.home = y.home :=
  congrArg Settled.home h

theorem lineage_eq_of_settled (h : x.settled = y.settled) : x.lineage = y.lineage :=
  congrArg Settled.lineage h

theorem kind_eq_of_settled (h : x.settled = y.settled) : x.kind = y.kind :=
  congrArg Settled.kind h

theorem owner?_eq_of_settled (h : x.settled = y.settled) : x.owner? = y.owner? := by
  rw [owner?, owner?, lineage_eq_of_settled h]

theorem isSpace_eq_kind (x : Entity) : x.isSpace = (x.kind = .space ∨ x.kind = .root : Bool) := by
  unfold isSpace kind
  cases x.form with
  | space isRoot t => cases isRoot <;> rfl
  | _ => rfl

theorem isSpace_eq_of_settled (h : x.settled = y.settled) : x.isSpace = y.isSpace := by
  rw [isSpace_eq_kind, isSpace_eq_kind, kind_eq_of_settled h]

theorem asAncestor_eq_of_settled (h : x.settled = y.settled) (e : EntityId) :
    x.asAncestor e = y.asAncestor e := by
  rw [asAncestor, asAncestor, name_eq_of_settled h, kind_eq_of_settled h, home_eq_of_settled h]

theorem scope?_eq_of_identity (h : x.identity = y.identity) : x.scope? = y.scope? :=
  congrArg Identity.scope? h

theorem memberKey_eq_of_identity (h : x.identity = y.identity) : x.memberKey = y.memberKey := by
  rw [memberKey, memberKey, name_eq_of_settled (settled_eq_of_identity h),
    scope?_eq_of_identity h]

theorem path_eq_kind_scope (x : Entity) : x.path =
    match x.scope? with
    | some scope => x.home.separators.methodPath x.name x.ownerPath scope
    | none =>
        if x.kind = .root then "" else x.home.separators.namespacePath x.name x.ownerPath := by
  unfold path scope? method? kind
  cases x.form with
  | space isRoot t => cases isRoot <;> simp
  | _ => simp

theorem path_eq_of_identity (h : x.identity = y.identity) : x.path = y.path := by
  have hs := settled_eq_of_identity h
  rw [path_eq_kind_scope, path_eq_kind_scope, scope?_eq_of_identity h, home_eq_of_settled hs,
    name_eq_of_settled hs, kind_eq_of_settled hs, ownerPath, ownerPath, lineage_eq_of_settled hs]

@[simp] theorem bare_updateTables (x : Entity) (f : Tables → Tables) :
    (x.updateTables f).bare = x.bare := by
  cases hf : x.form <;> simp [bare, updateTables, hf]

@[simp] theorem identity_bare (x : Entity) : x.bare.identity = x.identity := by
  simp [bare, identity, settled, scope?]

theorem identity_eq_of_bare (h : x.bare = y.bare) : x.identity = y.identity := by
  rw [← identity_bare x, h, identity_bare]

@[simp] theorem identity_updateTables (x : Entity) (f : Tables → Tables) :
    (x.updateTables f).identity = x.identity :=
  identity_eq_of_bare (bare_updateTables x f)

@[simp] theorem settled_updateMethod (x : Entity) (f : MethodFields → MethodFields) :
    (x.updateMethod f).settled = x.settled := by simp [settled]

theorem identity_updateMethod {f : MethodFields → MethodFields} (hf : ∀ m, (f m).scope = m.scope)
    (x : Entity) : (x.updateMethod f).identity = x.identity := by
  have hscope : (x.updateMethod f).scope? = x.scope? := by
    simp only [scope?, method?_updateMethod, Option.map_map]
    cases x.method? with
    | none => rfl
    | some m => exact congrArg some (hf m)
  rw [identity, identity, settled_updateMethod, hscope]

theorem identity_addFile (x : Entity) (file line : Value) :
    (x.addFile file line).identity = x.identity := by
  unfold addFile
  split <;> rfl

/-- The members of a namespace by name and scope; what is no namespace has none. -/
def slots (x : Entity) : OrderedTable (String × Option Scope) EntityId :=
  (x.tables?.getD default).members

theorem slots_eq_empty {x : Entity} (h : x.isSpace = false) : x.slots = ∅ := by
  cases hf : x.form with
  | space isRoot t => simp [isSpace, hf] at h
  | _ => simp [slots, tables?, hf]; rfl

@[simp] theorem slots_updateMethod (x : Entity) (f : MethodFields → MethodFields) :
    (x.updateMethod f).slots = x.slots := by simp [slots]

theorem slots_updateTables {x : Entity} (f : Tables → Tables) (h : x.isSpace = true) :
    (x.updateTables f).slots = (f (x.tables?.getD default)).members := by
  cases hf : x.form with
  | space isRoot t => simp [slots, updateTables, tables?, hf]
  | _ => simp [isSpace, hf] at h

@[simp] theorem isSpace_updateTables (x : Entity) (f : Tables → Tables) :
    (x.updateTables f).isSpace = x.isSpace := by rw [isSpace_eq_kind, isSpace_eq_kind]; simp

/-- Work on what a namespace keeps beside its members. -/
theorem slots_updateTables_of_members {f : Tables → Tables} (hf : ∀ t, (f t).members = t.members)
    (x : Entity) : (x.updateTables f).slots = x.slots := by
  cases hs : x.isSpace with
  | true => rw [slots_updateTables f hs, hf]; rfl
  | false => rw [slots_eq_empty hs, slots_eq_empty (by simpa using hs)]

theorem slots_addFile (x : Entity) (file line : Value) :
    (x.addFile file line).slots = x.slots := by
  unfold addFile
  split <;> rfl

end Entity

namespace Catalog

/-- The members of a namespace by name and scope. -/
def slots (c : Catalog) (n : EntityId) : OrderedTable (String × Option Scope) EntityId :=
  (c.entity n).slots

/-- A registry takes an entity at its path. -/
def put (c : Catalog) (r : Registry) (e : EntityId) : Catalog :=
  c.updateEntries r fun t => t.insert (c.path e) e

variable (c : Catalog)

theorem slots_eq (n : EntityId) : c.slots n = (c.tables n).members := rfl

/-! ### References that were not given out -/

theorem entity_of_not_knows {c : Catalog} {e : EntityId} (h : ¬ c.Knows e) :
    c.entity e = default := by
  rw [entity, Array.getElem?_eq_none (Nat.not_lt.1 h)]
  rfl

theorem update_of_not_knows {c : Catalog} {e : EntityId} (h : ¬ c.Knows e) (f : Entity → Entity) :
    c.update e f = c := by
  unfold Knows at h
  simp [update, Array.modify, Array.modifyM, h]

theorem knows_of_isSpace {c : Catalog} {e : EntityId} (h : (c.entity e).isSpace = true) :
    c.Knows e := by
  by_cases hk : c.Knows e
  · exact hk
  · rw [entity_of_not_knows hk] at h
    cases h

/-! ### What a write leaves in its place -/

theorem entries_congr {c c' : Catalog} (h : c'.stock = c.stock) (r : Registry) :
    c'.entries r = c.entries r := by
  simp [entries, holdings, h]

theorem root_congr {c c' : Catalog} (h : c'.stock = c.stock) (r : Registry) :
    c'.root r = c.root r := by
  simp [root, holdings, h]

@[simp] theorem size_update (e : EntityId) (f : Entity → Entity) :
    (c.update e f).entities.size = c.entities.size := by simp [update]

@[simp] theorem size_updateTables (n : EntityId) (f : Tables → Tables) :
    (c.updateTables n f).entities.size = c.entities.size := c.size_update n _

@[simp] theorem size_adopt (n e : EntityId) :
    (c.adopt n e).entities.size = c.entities.size := c.size_updateTables n _

@[simp] theorem size_adoptByOwner (e : EntityId) :
    (c.adoptByOwner e).entities.size = c.entities.size := by
  unfold adoptByOwner
  split <;> simp

@[simp] theorem size_dismiss (n e : EntityId) :
    (c.dismiss n e).entities.size = c.entities.size := by
  simp only [dismiss]
  split <;> simp

@[simp] theorem size_moveInOwner (e : EntityId) (old : String × Option Scope) :
    (c.moveInOwner e old).entities.size = c.entities.size := by
  unfold moveInOwner moveMember
  split
  · split <;> simp
  · rfl

@[simp] theorem size_writeScope (e : EntityId) (s : Scope) :
    (c.writeScope e s).entities.size = c.entities.size := c.size_update e _

@[simp] theorem stock_adoptByOwner (e : EntityId) : (c.adoptByOwner e).stock = c.stock := by
  unfold adoptByOwner
  split <;> rfl

@[simp] theorem stock_dismiss (n e : EntityId) : (c.dismiss n e).stock = c.stock := by
  simp only [dismiss]
  split <;> rfl

@[simp] theorem stock_moveInOwner (e : EntityId) (old : String × Option Scope) :
    (c.moveInOwner e old).stock = c.stock := by
  unfold moveInOwner moveMember
  split
  · split <;> rfl
  · rfl

@[simp] theorem stock_writeScope (e : EntityId) (s : Scope) :
    (c.writeScope e s).stock = c.stock := rfl

/-! ### Writes to the registries -/

@[simp] theorem stock_size_updateEntries (r : Registry)
    (f : OrderedTable String EntityId → OrderedTable String EntityId) :
    (c.updateEntries r f).stock.size = c.stock.size := by simp [updateEntries, updateHoldings]

@[simp] theorem entity_updateEntries (r : Registry)
    (f : OrderedTable String EntityId → OrderedTable String EntityId) (e : EntityId) :
    (c.updateEntries r f).entity e = c.entity e := rfl

@[simp] theorem entity_put (r : Registry) (e e' : EntityId) : (c.put r e).entity e' = c.entity e' :=
  rfl

theorem entries_eq_empty {r : Registry} (h : ¬ r.index < c.stock.size) : c.entries r = ∅ := by
  have : c.stock[r.index]? = none := Array.getElem?_eq_none (Nat.not_lt.1 h)
  simp only [entries, holdings, this]
  rfl

theorem entries_updateEntries {r : Registry} (r' : Registry)
    (f : OrderedTable String EntityId → OrderedTable String EntityId)
    (h : r.index < c.stock.size) :
    (c.updateEntries r f).entries r' =
      if r.index = r'.index then f (c.entries r) else c.entries r' := by
  simp only [entries, updateEntries, holdings_updateHoldings c r r' _ h]
  split <;> rfl

theorem entries_eq_of_index {r r' : Registry} (h : r.index = r'.index) :
    c.entries r = c.entries r' := by
  rw [entries, entries, holdings, holdings, h]

theorem get?_entries_put {r : Registry} (e : EntityId) (r' : Registry) (p : String)
    (h : r.index < c.stock.size) :
    ((c.put r e).entries r').get? p =
      if r.index = r'.index ∧ c.path e = p then some e else (c.entries r').get? p := by
  rw [put, entries_updateEntries c r' _ h]
  by_cases hi : r.index = r'.index
  · simp [hi, OrderedTable.get?_insert, c.entries_eq_of_index hi]
  · simp [hi]

theorem get?_entries_take (r r' : Registry) (p q : String) :
    ((c.updateEntries r fun t => t.erase p).entries r').get? q =
      if r.index = r'.index ∧ p = q then none else (c.entries r').get? q := by
  by_cases h : r.index < c.stock.size
  · rw [entries_updateEntries c r' _ h]
    by_cases hi : r.index = r'.index
    · simp [hi, OrderedTable.get?_erase, c.entries_eq_of_index hi]
    · simp [hi]
  · by_cases hi : r.index = r'.index
    · have hs : (c.updateEntries r fun t => t.erase p).entries r' = ∅ :=
        entries_eq_empty _ (by simpa [← hi] using h)
      simp [hs, entries_eq_empty c (r := r') (by rwa [← hi])]
    · have hs : (c.updateEntries r fun t => t.erase p).stock = c.stock := by
        simp [updateEntries, updateHoldings, Array.modify, Array.modifyM, h]
      simp [entries_congr hs, hi]

theorem root_updateEntries (r r' : Registry)
    (f : OrderedTable String EntityId → OrderedTable String EntityId) :
    (c.updateEntries r f).root r' = c.root r' := by
  by_cases h : r.index < c.stock.size
  · simp only [root, updateEntries, holdings_updateHoldings c r r' _ h]
    split
    · next hi => simp [holdings, hi]
    · rfl
  · simp [root, holdings, updateEntries, updateHoldings, Array.modify, Array.modifyM, h]

/-! ### Writes to the member lists -/

theorem bare_updateTables (n e : EntityId) (f : Tables → Tables) :
    ((c.updateTables n f).entity e).bare = (c.entity e).bare :=
  entity_update_congr Entity.bare c n e _ fun x => x.bare_updateTables f

@[simp] theorem bare_adopt (n e e' : EntityId) :
    ((c.adopt n e).entity e').bare = (c.entity e').bare := c.bare_updateTables n e' _

@[simp] theorem bare_adoptByOwner (e e' : EntityId) :
    ((c.adoptByOwner e).entity e').bare = (c.entity e').bare := by
  unfold adoptByOwner
  split <;> simp

@[simp] theorem bare_dismiss (n e e' : EntityId) :
    ((c.dismiss n e).entity e').bare = (c.entity e').bare := by
  simp only [dismiss]
  split
  · exact c.bare_updateTables n e' _
  · rfl

@[simp] theorem bare_dismissByOwner (e e' : EntityId) :
    ((c.dismissByOwner e).entity e').bare = (c.entity e').bare := by
  unfold dismissByOwner
  split <;> simp

@[simp] theorem bare_moveMember (n e e' : EntityId) (old : String × Option Scope) :
    ((c.moveMember n e old).entity e').bare = (c.entity e').bare := by
  unfold moveMember
  split
  · exact c.bare_updateTables n e' _
  · rfl

@[simp] theorem bare_moveInOwner (e e' : EntityId) (old : String × Option Scope) :
    ((c.moveInOwner e old).entity e').bare = (c.entity e').bare := by
  unfold moveInOwner
  split <;> simp

theorem slots_updateTables {n : EntityId} (n' : EntityId) (f : Tables → Tables)
    (h : (c.entity n).isSpace = true) :
    (c.updateTables n f).slots n' = if n = n' then (f (c.tables n)).members else c.slots n' := by
  rw [slots_eq, tables_updateTables c n n' f h]
  split <;> rfl

theorem slots_adopt {n : EntityId} (e n' : EntityId) (h : (c.entity n).isSpace = true) :
    (c.adopt n e).slots n' =
      if n = n' then (c.slots n).insert (c.entity e).memberKey e else c.slots n' :=
  c.slots_updateTables n' _ h

/-- Only namespaces have members. -/
theorem isSpace_of_slots {n e : EntityId} {k : String × Option Scope}
    (h : (c.slots n).get? k = some e) : (c.entity n).isSpace = true := by
  cases hs : (c.entity n).isSpace with
  | true => rfl
  | false =>
      rw [slots, Entity.slots_eq_empty hs] at h
      simp at h

/-- A slot is struck off only where the entity is the one listed. -/
theorem slots_dismiss (n e n' : EntityId) :
    (c.dismiss n e).slots n' =
      if n = n' ∧ (c.slots n).get? (c.entity e).memberKey = some e then
        (c.slots n).erase (c.entity e).memberKey
      else c.slots n' := by
  by_cases hm : (c.slots n).get? (c.entity e).memberKey = some e
  · have hs := c.isSpace_of_slots hm
    rw [dismiss, if_pos (show (c.tables n).members.get? _ = some e from hm),
      slots_updateTables c n' _ hs]
    simp only [hm, and_true]
    rfl
  · rw [dismiss, if_neg (show ¬ (c.tables n).members.get? _ = some e from hm)]
    simp [hm]

/-- A slot is moved only where the entity is the one listed. -/
theorem slots_moveMember (n e n' : EntityId) (old : String × Option Scope) :
    (c.moveMember n e old).slots n' =
      if n = n' ∧ (c.slots n).get? old = some e then
        ((c.slots n).erase old).insert (c.entity e).memberKey e
      else c.slots n' := by
  by_cases hm : (c.slots n).get? old = some e
  · have hs := c.isSpace_of_slots hm
    rw [moveMember, if_pos (show (c.tables n).members.get? old = some e from hm),
      slots_updateTables c n' _ hs]
    simp only [hm, and_true]
    rfl
  · rw [moveMember, if_neg (show ¬ (c.tables n).members.get? old = some e from hm)]
    simp [hm]

theorem get?_slots_adoptByOwner {e : EntityId} (n : EntityId) (k : String × Option Scope)
    (h : ∀ n, (c.entity e).owner? = some n → (c.entity n).isSpace = true) :
    ((c.adoptByOwner e).slots n).get? k =
      if (c.entity e).owner? = some n ∧ (c.entity e).memberKey = k then some e
      else (c.slots n).get? k := by
  cases ho : (c.entity e).owner? with
  | none => simp [adoptByOwner, ho]
  | some owner =>
      simp only [adoptByOwner, ho, slots_adopt c e n (h owner ho), Option.some.injEq]
      by_cases hn : owner = n
      · simp [hn, OrderedTable.get?_insert]
      · simp [hn]

theorem get?_slots_dismiss (n e n' : EntityId) (k : String × Option Scope) :
    ((c.dismiss n e).slots n').get? k =
      if n = n' ∧ (c.entity e).memberKey = k ∧ (c.slots n).get? k = some e then none
      else (c.slots n').get? k := by
  rw [slots_dismiss]
  by_cases hn : n = n'
  · subst hn
    by_cases hk : (c.entity e).memberKey = k
    · subst hk
      by_cases hm : (c.slots n).get? (c.entity e).memberKey = some e <;> simp [hm]
    · simp only [hk, false_and, and_false, if_false, true_and]
      split <;> simp [OrderedTable.get?_erase, hk]
  · simp [hn]

/-- A member that is moved leaves its old slot and takes its new one, whoever has it. -/
theorem get?_slots_moveInOwner (e n : EntityId) (old k : String × Option Scope) :
    ((c.moveInOwner e old).slots n).get? k =
      if (c.entity e).owner? = some n ∧ (c.slots n).get? old = some e then
        if (c.entity e).memberKey = k then some e
        else if old = k then none else (c.slots n).get? k
      else (c.slots n).get? k := by
  cases ho : (c.entity e).owner? with
  | none => simp [moveInOwner, ho]
  | some owner =>
      simp only [moveInOwner, ho, slots_moveMember, Option.some.injEq]
      by_cases hn : owner = n
      · subst hn
        by_cases hm : (c.slots owner).get? old = some e
        · simp [hm, OrderedTable.get?_insert, OrderedTable.get?_erase]
        · simp [hm]
      · simp [hn]

/-! ### Writes to one entity -/

theorem slots_update (e n : EntityId) (f : Entity → Entity) (h : ∀ x, (f x).slots = x.slots) :
    (c.update e f).slots n = c.slots n :=
  entity_update_congr Entity.slots c e n f h

@[simp] theorem slots_writeScope (e n : EntityId) (s : Scope) :
    (c.writeScope e s).slots n = c.slots n :=
  c.slots_update e n _ fun x => by simp

@[simp] theorem settled_writeScope (e e' : EntityId) (s : Scope) :
    ((c.writeScope e s).entity e').settled = (c.entity e').settled :=
  entity_update_congr Entity.settled c e e' _ fun x => by simp

theorem entity_writeScope_of_ne {e e' : EntityId} (s : Scope) (h : e ≠ e') :
    (c.writeScope e s).entity e' = c.entity e' := by
  by_cases hk : c.Knows e
  · rw [writeScope, entity_update c e e' _ hk, if_neg h]
  · have hi : e.index ≠ e'.index := fun hi => h (by cases e; cases e'; simp_all)
    simp [writeScope, update, entity, Array.getElem?_modify, hi]

end Catalog

end DocCatalog
