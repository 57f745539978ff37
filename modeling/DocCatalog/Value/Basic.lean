/-
**Dynamic values.**

Manifests, configuration files and the producers of a catalog hand in plain data, and a value of the
wrong kind is told back in the words of its kind.  A value is a null, a truth value, a number, a
text, a day or a time, a sequence (open as a list or closed as a tuple), a mapping from texts, or a
member of one of the two closed sets of `DocCatalog.Access`.

A text is a sequence of characters.  One with half of a surrogate pair that stands alone is none,
and no value: where data are read that may have such texts (`Json.Term`), it is said which have
values.

Main definitions:

* `Value`: the values;
* `Value.kindName`, `Value.className`: the word for the kind of a value, alone and with its module;
* `Value.isTruthy`: whether a value counts as true.

Main results:

* an instance of `DecidableEq Value`, from `Value.same_iff`.
-/

import DocCatalog.Access
import DocCatalog.Moment
import DocCatalog.Number.Binary64

set_option autoImplicit false

namespace DocCatalog

/-- Plain data.  The fields of a mapping are in the order in which they were written. -/
inductive Value where
  | null
  | bool (b : Bool)
  | int (n : Int)
  | float (x : Binary64)
  | text (s : String)
  | moment (m : Moment)
  | list (items : List Value)
  | tuple (items : List Value)
  | dict (fields : List (String × Value))
  | scope (s : Scope)
  | visibility (v : Visibility)

namespace Value

instance : Inhabited Value := ⟨null⟩

/-- The most decimal digits that an integer is read from or written in. -/
def digitLimit : Nat := 4300

/-! ### Equality of values as written -/

mutual

/-- Whether two values are written alike. -/
def same : Value → Value → Bool
  | null, null => true
  | bool a, bool b => a = b
  | int a, int b => a = b
  | float a, float b => a = b
  | text a, text b => a = b
  | moment a, moment b => a = b
  | list a, list b => sameItems a b
  | tuple a, tuple b => sameItems a b
  | dict a, dict b => sameFields a b
  | scope a, scope b => a = b
  | visibility a, visibility b => a = b
  | _, _ => false

def sameItems : List Value → List Value → Bool
  | [], [] => true
  | a :: as, b :: bs => same a b && sameItems as bs
  | _, _ => false

def sameFields : List (String × Value) → List (String × Value) → Bool
  | [], [] => true
  | (j, a) :: as, (k, b) :: bs => j = k && same a b && sameFields as bs
  | _, _ => false

end

mutual

theorem same_iff : ∀ a b : Value, same a b = true ↔ a = b
  | null, b => by cases b <;> simp [same]
  | bool _, b => by cases b <;> simp [same]
  | int _, b => by cases b <;> simp [same]
  | float _, b => by cases b <;> simp [same]
  | text _, b => by cases b <;> simp [same]
  | moment _, b => by cases b <;> simp [same]
  | list as, b => by
      cases b with
      | list bs => simp [same, sameItems_iff as bs]
      | _ => simp [same]
  | tuple as, b => by
      cases b with
      | tuple bs => simp [same, sameItems_iff as bs]
      | _ => simp [same]
  | dict as, b => by
      cases b with
      | dict bs => simp [same, sameFields_iff as bs]
      | _ => simp [same]
  | scope _, b => by cases b <;> simp [same]
  | visibility _, b => by cases b <;> simp [same]

theorem sameItems_iff : ∀ as bs : List Value, sameItems as bs = true ↔ as = bs
  | [], bs => by cases bs <;> simp [sameItems]
  | a :: as, bs => by
      cases bs with
      | nil => simp [sameItems]
      | cons b bs => simp [sameItems, same_iff a b, sameItems_iff as bs]

theorem sameFields_iff :
    ∀ as bs : List (String × Value), sameFields as bs = true ↔ as = bs
  | [], bs => by cases bs <;> simp [sameFields]
  | (j, a) :: as, bs => by
      cases bs with
      | nil => simp [sameFields]
      | cons p bs =>
          obtain ⟨k, b⟩ := p
          simp [sameFields, same_iff a b, sameFields_iff as bs, and_assoc]

end

instance : DecidableEq Value := fun a b => decidable_of_iff _ (same_iff a b)

/-! ### The kind of a value -/

/-- The word for the kind of a value. -/
def kindName : Value → String
  | null => "NoneType"
  | bool _ => "bool"
  | int _ => "int"
  | float _ => "float"
  | text _ => "str"
  | moment m => m.word
  | list _ => "list"
  | tuple _ => "tuple"
  | dict _ => "dict"
  | scope _ => "Scope"
  | visibility _ => "Visibility"

/-- The name of the class of a value, with that of its module for a day or a time. -/
def className : Value → String
  | moment m => m.className
  | v => v.kindName

/-- Whether a value counts as true: null, false, zero and whatever is empty do not. -/
def isTruthy : Value → Bool
  | null => false
  | bool b => b
  | int n => n ≠ 0
  | float x => !x.isZero
  | text s => s ≠ ""
  | moment _ => true
  | list items => items ≠ []
  | tuple items => items ≠ []
  | dict fields => fields ≠ []
  | scope _ => true
  | visibility _ => true

/-- The text of a value that is one. -/
def text? : Value → Option String
  | text s => some s
  | _ => none

/-- The value at a key of a list of fields: of fields with one key the first, as no key is written
twice. -/
def field? (fields : List (String × Value)) (key : String) : Option Value :=
  (fields.find? (fun p => p.1 = key)).map Prod.snd

/-- A text, or null. -/
def ofText? : Option String → Value
  | some s => text s
  | none => null

end Value

end DocCatalog
