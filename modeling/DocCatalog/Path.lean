/-
**Canonical paths.**

A path is built from the path of the owner, a name, and, for a method, its scope.  The empty path is
the root's; an entry without an owner is named as if the root owned it.

| owner | scope       | separator between namespaces / for methods | example     |
|-------|-------------|---------------------------------------------|-------------|
| root  | of instance | `onInstance`                                | `#run`      |
| root  | of class    | `nested`                                    | `::build`   |
| `Foo` | of instance | `onInstance`                                | `Foo#run`   |
| `Foo` | of class    | `onClass`                                   | `Foo.build` |

Main definitions:

* `Separators`: the three texts that join a name to the path before it;
* `Separators.methodPath`, `Separators.namespacePath`: the path of a method, and of all else;
* `Separators.Distinct`: the condition under which paths of different kinds can be told apart.
-/

import DocCatalog.Access

set_option autoImplicit false

namespace DocCatalog

/-- The texts that join a name to the path before it: a nested namespace's, a class method's and an
instance method's. -/
structure Separators where
  nested : String := "::"
  onClass : String := "."
  onInstance : String := "#"
  deriving DecidableEq, Repr

/-- Whether a path is that of the root, which stands for an absent owner too. -/
def isTopLevel (owner : String) : Bool := owner = ""

namespace Separators

/-- No separator is empty, and no two are equal. -/
def Distinct (s : Separators) : Prop :=
  s.nested ≠ "" ∧ s.onClass ≠ "" ∧ s.onInstance ≠ "" ∧
    s.onInstance ≠ s.nested ∧ s.onInstance ≠ s.onClass ∧ s.onClass ≠ s.nested

instance (s : Separators) : Decidable s.Distinct := by unfold Distinct; infer_instance

/-- The separator before the name of a method. -/
def methodSeparator (s : Separators) (scope : Scope) (owner : String) : String :=
  match scope with
  | .onInstance => s.onInstance
  | .onClass => if isTopLevel owner then s.nested else s.onClass

/-- The path of a method.  At the top level it begins with the separator, so that a method of the
class and one of the instances differ there too. -/
def methodPath (s : Separators) (name : String) (owner : String) (scope : Scope) : String :=
  owner ++ s.methodSeparator scope owner ++ name

/-- The path of a namespace, or of any other entry that is not a method. -/
def namespacePath (s : Separators) (name : String) (owner : String) : String :=
  if isTopLevel owner then name else owner ++ s.nested ++ name

/-- A name with the separator of an instance method before it, if that is the one given. -/
def prefixedName (s : Separators) (name separator : String) : String :=
  if separator = s.onInstance then separator ++ name else name

@[simp] theorem namespacePath_empty (s : Separators) (name : String) :
    s.namespacePath name "" = name := by simp [namespacePath, isTopLevel]

end Separators

end DocCatalog
