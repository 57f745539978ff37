/-
**The state of a catalog.**

A catalog holds every entity that was ever made and every registry, and a journal of what was
written to the registries.  Entities and registries are never removed, only referred to or not: a
registry holds entities under their paths, a namespace lists its members.

Main definitions:

* `Event`, `Notice`: an event in the life of a registry, and its record;
* `Holdings`: what a registry holds, and its root;
* `Catalog`: the state;
* `Catalog.entity`, `Catalog.holdings`: reading the state;
* `Catalog.update`, `Catalog.updateHoldings`, `Catalog.note`: the writes that all others consist of;
* `Action`: a step that may fail, and that keeps what it did before it failed.

Main results:

* `Catalog.entity_update`, `Catalog.holdings_updateHoldings`: what a write does to every later read.
-/

import DocCatalog.Catalog.Fault

set_option autoImplicit false

namespace DocCatalog

/-! ### The journal -/

/-- Events that are worth a record. -/
inductive Event where
  /-- An entity took a path that was vacant or its own. -/
  | registered (path : String)
  /-- An entity took the path of another, shown as it was. -/
  | replaced (previous : String) (path : String)
  /-- A path became vacant. -/
  | deleted (path : String)
  /-- An entity went from one path to another. -/
  | rekeyed (old new : String)
  /-- A manifest was loaded, after which the registry held so many entities. -/
  | loaded (count : Nat)
  deriving DecidableEq

/-- An event and the registry that it happened in. -/
structure Notice where
  registry : Registry
  event : Event
  deriving DecidableEq

/-- The text of an event. -/
def Event.message : Event → String
  | registered path => "Registered " ++ path
  | replaced previous path => "Replaced " ++ previous ++ " at " ++ path
  | deleted path => "Deleted " ++ path
  | rekeyed old new => "Re-keyed " ++ old ++ " -> " ++ new
  | loaded count => "Loaded manifest: " ++ toString count ++ " entities"

/-- The name of the logger that an event is recorded by. -/
def Event.logger : Event → String
  | loaded _ => "docobjects.loader"
  | _ => "docobjects.objects.registry"

/-! ### The state -/

/-- What a registry holds: entities by path, and a root, which is held under no path. -/
structure Holdings where
  entries : OrderedTable String EntityId := ∅
  root : EntityId

instance : Inhabited Holdings := ⟨{ root := default }⟩

/-- Every entity, what every registry holds, and the journal, latest record last. -/
structure Catalog where
  entities : Array Entity := #[]
  stock : Array Holdings := #[]
  journal : List Notice := []

/-- A step that may fail, and that keeps what it did before it failed. -/
abbrev Action := ExceptT Fault (StateM Catalog)

namespace Catalog

instance : Inhabited Catalog := ⟨{}⟩

/-! ### Reading -/

/-- The entity that a reference stands for.  One that was never given out stands for an entry
without a name. -/
def entity (c : Catalog) (e : EntityId) : Entity := c.entities[e.index]?.getD default

/-- What a registry holds. -/
def holdings (c : Catalog) (r : Registry) : Holdings := c.stock[r.index]?.getD default

/-- The entities that a registry holds, by path. -/
def entries (c : Catalog) (r : Registry) : OrderedTable String EntityId := (c.holdings r).entries

/-- The root of a registry. -/
def root (c : Catalog) (r : Registry) : EntityId := (c.holdings r).root

/-- The path of an entity. -/
def path (c : Catalog) (e : EntityId) : String := (c.entity e).path

/-- What a namespace keeps about its members; what is no namespace keeps nothing. -/
def tables (c : Catalog) (e : EntityId) : Tables := (c.entity e).tables?.getD default

/-! ### Writing -/

/-- Changes an entity. -/
def update (c : Catalog) (e : EntityId) (f : Entity → Entity) : Catalog :=
  { c with entities := c.entities.modify e.index f }

/-- Changes what a namespace keeps about its members. -/
def updateTables (c : Catalog) (e : EntityId) (f : Tables → Tables) : Catalog :=
  c.update e fun x => x.updateTables f

/-- Changes what a registry holds. -/
def updateHoldings (c : Catalog) (r : Registry) (f : Holdings → Holdings) : Catalog :=
  { c with stock := c.stock.modify r.index f }

/-- Changes the entities that a registry holds. -/
def updateEntries (c : Catalog) (r : Registry)
    (f : OrderedTable String EntityId → OrderedTable String EntityId) : Catalog :=
  c.updateHoldings r fun h => { h with entries := f h.entries }

/-- Records an event. -/
def note (c : Catalog) (r : Registry) (event : Event) : Catalog :=
  { c with journal := c.journal ++ [⟨r, event⟩] }

/-- Adds an entity, and gives out the reference to it. -/
def add (c : Catalog) (x : Entity) : EntityId × Catalog :=
  (⟨c.entities.size⟩, { c with entities := c.entities.push x })

/-! ### Reading after a write -/

/-- Whether a reference was given out. -/
def Knows (c : Catalog) (e : EntityId) : Prop := e.index < c.entities.size

instance (c : Catalog) (e : EntityId) : Decidable (c.Knows e) := by unfold Knows; infer_instance

theorem entity_update (c : Catalog) (e e' : EntityId) (f : Entity → Entity) (h : c.Knows e) :
    (c.update e f).entity e' = if e = e' then f (c.entity e) else c.entity e' := by
  have he : (e = e') = (e.index = e'.index) := by
    cases e; cases e'; simp
  unfold Knows at h
  simp only [entity, update, Array.getElem?_modify, he]
  split
  · next hi => simp [← hi, h]
  · rfl

/-- A change leaves alone what its function leaves alone. -/
theorem entity_update_congr {β : Type} (g : Entity → β) (c : Catalog) (e e' : EntityId)
    (f : Entity → Entity) (h : ∀ x, g (f x) = g x) :
    g ((c.update e f).entity e') = g (c.entity e') := by
  by_cases hk : c.Knows e
  · rw [entity_update c e e' f hk]
    split
    · next he => rw [h, he]
    · rfl
  · simp only [Knows] at hk
    simp only [entity, update, Array.getElem?_modify]
    split
    · next hi => simp [← hi, hk]
    · rfl

@[simp] theorem path_updateTables (c : Catalog) (n e : EntityId) (f : Tables → Tables) :
    (c.updateTables n f).path e = c.path e :=
  entity_update_congr Entity.path c n e _ fun x => x.path_updateTables f

theorem tables_updateTables (c : Catalog) (n n' : EntityId) (f : Tables → Tables)
    (h : (c.entity n).isSpace) :
    (c.updateTables n f).tables n' = if n = n' then f (c.tables n) else c.tables n' := by
  obtain ⟨isRoot, t, hf⟩ : ∃ isRoot t, (c.entity n).form = .space isRoot t := by
    unfold Entity.isSpace at h
    split at h
    · next isRoot t hf => exact ⟨isRoot, t, hf⟩
    · simp at h
  have hk : c.Knows n := by
    by_cases hk : c.Knows n
    · exact hk
    · have : c.entity n = default := by
        simp only [Knows, Nat.not_lt] at hk
        simp [entity, Array.getElem?_eq_none hk]
      rw [this] at hf
      exact Form.noConfusion hf
  simp only [tables, updateTables, entity_update c n n' _ hk]
  split
  · next he => simp [Entity.tables?, Entity.updateTables, hf]
  · rfl

@[simp] theorem entity_updateHoldings (c : Catalog) (r : Registry) (f : Holdings → Holdings)
    (e : EntityId) : (c.updateHoldings r f).entity e = c.entity e := rfl

@[simp] theorem entity_note (c : Catalog) (r : Registry) (event : Event) (e : EntityId) :
    (c.note r event).entity e = c.entity e := rfl

@[simp] theorem holdings_update (c : Catalog) (e : EntityId) (f : Entity → Entity)
    (r : Registry) : (c.update e f).holdings r = c.holdings r := rfl

@[simp] theorem holdings_note (c : Catalog) (r r' : Registry) (event : Event) :
    (c.note r event).holdings r' = c.holdings r' := rfl

theorem holdings_updateHoldings (c : Catalog) (r r' : Registry) (f : Holdings → Holdings)
    (h : r.index < c.stock.size) :
    (c.updateHoldings r f).holdings r' =
      if r.index = r'.index then f (c.holdings r) else c.holdings r' := by
  simp only [holdings, updateHoldings, Array.getElem?_modify]
  split
  · next hi => simp [← hi, h]
  · rfl

theorem entity_add (c : Catalog) (x : Entity) (e : EntityId) :
    (c.add x).2.entity e = if e.index = c.entities.size then x else c.entity e := by
  simp only [entity, add, Array.getElem?_push]
  split <;> rfl

end Catalog

/-- The step that changes a catalog and cannot fail. -/
def Action.change (f : Catalog → Catalog) : Action Unit := modify f

/-- The step that reads a catalog. -/
def Action.ask {α : Type} (f : Catalog → α) : Action α := do return f (← get)

end DocCatalog
