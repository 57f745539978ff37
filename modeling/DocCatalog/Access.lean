/-
**How a method is reached: its scope and its visibility.**

Both are closed sets.  A scope says whether a method belongs to its namespace or to the instances of
it, and is part of the method's identity; a visibility is an annotation only.

Main definitions:

* `Scope`, `Visibility`: the two sets;
* `Scope.word`, `Visibility.word`: the word each member is written as;
* `Scope.all`, `Visibility.all`: the members, in the order in which they are offered.

Main results:

* `find?_word_eq_some_iff`: a closed set is searched by words;
* `Scope.word_injective`, `Visibility.word_injective`: a word names one member.
-/

set_option autoImplicit false

namespace DocCatalog

/-- Searching a closed set for a word finds the member that has it. -/
theorem find?_word_eq_some_iff {α : Type} {members : List α} {word : α → String}
    (hall : ∀ m, m ∈ members) (hword : ∀ {m m'}, word m = word m' → m = m') {w : String} {m : α} :
    members.find? (fun m => decide (word m = w)) = some m ↔ w = word m := by
  have hfound : ∀ {m'}, members.find? (fun m => decide (word m = w)) = some m' → word m' = w :=
    fun hm => by simpa using List.find?_some hm
  constructor
  · exact fun h => (hfound h).symm
  · intro h
    cases hm : members.find? fun m => decide (word m = w) with
    | none => exact absurd h.symm (by simpa using List.find?_eq_none.1 hm m (hall m))
    | some m' => rw [hword ((hfound hm).trans h)]

/-- Whether a method belongs to its namespace or to the instances of it. -/
inductive Scope where
  | onClass
  | onInstance
  deriving DecidableEq, Repr

/-- Who is meant to call a method. -/
inductive Visibility where
  | publicAccess
  | protectedAccess
  | privateAccess
  deriving DecidableEq, Repr

namespace Scope

/-- The word a scope is written as. -/
def word : Scope → String
  | onClass => "class"
  | onInstance => "instance"

/-- Both scopes. -/
def all : List Scope := [onClass, onInstance]

@[simp] theorem mem_all (s : Scope) : s ∈ all := by cases s <;> simp [all]

theorem word_injective {s t : Scope} (h : s.word = t.word) : s = t := by
  cases s <;> cases t <;> simp [word] at h ⊢

end Scope

namespace Visibility

/-- The word a visibility is written as. -/
def word : Visibility → String
  | publicAccess => "public"
  | protectedAccess => "protected"
  | privateAccess => "private"

/-- All visibilities. -/
def all : List Visibility := [publicAccess, protectedAccess, privateAccess]

@[simp] theorem mem_all (v : Visibility) : v ∈ all := by cases v <;> simp [all]

theorem word_injective {v w : Visibility} (h : v.word = w.word) : v = w := by
  cases v <;> cases w <;> simp [word] at h ⊢

end Visibility

end DocCatalog
