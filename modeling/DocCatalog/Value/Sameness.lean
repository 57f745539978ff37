/-
**When two values are the same, and values as keys.**

Numbers are the same if they are equal as numbers, whatever their kind, and a truth value counts as
zero or one; points in time are the same whatever the offset at which they are read, and mappings
whatever the order of their fields.  Every value has one canonical form, two values are the same if
they share it, and a table keyed by values is a table keyed by canonical forms.  Lists and mappings
can be changed by their holders and are no keys.

Main definitions:

* `Value.canonical`: the canonical form;
* `Value.agrees`: being the same;
* `Value.unhashableKind?`: the kind that keeps a value from being a key;
* `ValueTable`: a table keyed by values, which remembers how each key was first spelled.

Main results:

* `Value.agrees_refl`, `Value.agrees_comm`, `Value.agrees_trans`: being the same is an equivalence.
-/

import DocCatalog.OrderedTable
import DocCatalog.Value.Basic

set_option autoImplicit false

namespace DocCatalog

namespace Value

/-- The canonical form of a number with a point: the integer that it equals, if there is one. -/
def canonicalFloat (x : Binary64) : Value :=
  match x.integer? with
  | some n => int n
  | none => float x

mutual

/-- The canonical form: whole numbers and truth values are integers, points in time are read at the
offset zero, and the fields of a mapping are in the order of their keys. -/
def canonical : Value → Value
  | bool b => int (if b then 1 else 0)
  | float x => canonicalFloat x
  | moment m => moment m.canonical
  | list items => list (canonicals items)
  | tuple items => tuple (canonicals items)
  | dict fields => dict ((canonicalFields fields).mergeSort fun a b => !decide (b.1 < a.1))
  | v => v

def canonicals : List Value → List Value
  | [] => []
  | v :: rest => canonical v :: canonicals rest

def canonicalFields : List (String × Value) → List (String × Value)
  | [] => []
  | (k, v) :: rest => (k, canonical v) :: canonicalFields rest

end

/-- Whether two values are the same. -/
def agrees (a b : Value) : Bool := a.canonical = b.canonical

@[simp] theorem agrees_refl (a : Value) : a.agrees a := by simp [agrees]

theorem agrees_comm (a b : Value) : a.agrees b = b.agrees a := by
  simp only [agrees, eq_comm]

theorem agrees_trans {a b c : Value} (h : a.agrees b) (h' : b.agrees c) : a.agrees c := by
  simp only [agrees, decide_eq_true_eq] at h h' ⊢
  exact h.trans h'

@[simp] theorem canonical_text (s : String) : (text s).canonical = text s := by simp [canonical]

mutual

/-- The kind of the first part of a value, itself included, that can be changed by its holder: a
value with such a part is no key. -/
def unhashableKind? : Value → Option String
  | list _ => some "list"
  | dict _ => some "dict"
  | tuple items => unhashableKinds? items
  | _ => none

def unhashableKinds? : List Value → Option String
  | [] => none
  | v :: rest => (unhashableKind? v).or (unhashableKinds? rest)

end

end Value

/-- A table keyed by values: the canonical form of each key, with its first spelling. -/
abbrev ValueTable (α : Type) := OrderedTable Value (Value × α)

namespace ValueTable

variable {α : Type}

/-- The entry at a key, if the key is there. -/
def find? (t : ValueTable α) (key : Value) : Option α := (t.get? key.canonical).map Prod.snd

/-- Writes an entry at a key, whose first spelling stays. -/
def put (t : ValueTable α) (key : Value) (a : α) : ValueTable α :=
  t.insert key.canonical (((t.get? key.canonical).map Prod.fst).getD key, a)

/-- The keys as first spelled, each with its entry. -/
def entries (t : ValueTable α) : List (Value × α) := t.values

theorem find?_put (t : ValueTable α) (k k' : Value) (a : α) :
    (t.put k a).find? k' = if k.agrees k' then some a else t.find? k' := by
  simp only [find?, put, OrderedTable.get?_insert, Value.agrees, decide_eq_true_eq]
  split <;> rfl

/-- After a write a spelling is the one written, or it was there before. -/
theorem spelling_of_put {t : ValueTable α} {k key c : Value} {a b : α}
    (h : (t.put k a).get? c = some (key, b)) :
    (key = k ∧ k.canonical = c) ∨ ∃ b', t.get? c = some (key, b') := by
  rw [put, OrderedTable.get?_insert] at h
  split at h
  · next hk =>
      subst hk
      have hkey := congrArg Prod.fst (Option.some.inj h)
      cases hold : t.get? k.canonical with
      | none => exact .inl ⟨by simpa [hold] using hkey.symm, rfl⟩
      | some p =>
          obtain rfl : p.1 = key := by simpa [hold] using hkey
          exact .inr ⟨p.2, rfl⟩
  · exact .inr ⟨b, h⟩

end ValueTable

end DocCatalog
