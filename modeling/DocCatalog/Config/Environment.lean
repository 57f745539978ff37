/-
**Settings from the environment.**

Every setting can be given by a variable of its own.  A variable holds text, and it is taken as it
is for a setting whose type admits text: a text, a choice between fixed words, or either of them or
null.

Main definitions:

* `Config.TypeHint`: what is written down about the type of a setting;
* `Config.TypeHint.read?`: the value that the text of a variable has for a type;
* `Setting.environmentName`, `Config.environmentFields`: the variables and the settings that they
  give.
-/

import DocCatalog.Config.Basic

set_option autoImplicit false

namespace DocCatalog

namespace Config

/-- A type without arguments, as far as reading a variable tells types apart. -/
inductive TypeHint.Name where
  | text
  /-- One of fixed words. -/
  | choice
  /-- The type of null alone. -/
  | null
  | other
  deriving DecidableEq, Repr

/-- What is written down about a type: a plain one, or one with arguments such as a union. -/
inductive TypeHint where
  | plain (name : TypeHint.Name)
  | applied (arguments : List TypeHint.Name)
  deriving DecidableEq, Repr

namespace TypeHint

/-- The type that decides how a text is read: of one with null among its arguments the first other
argument, of all else the type itself. -/
def deciding : TypeHint → Name
  | plain name => name
  | applied arguments =>
      if .null ∈ arguments then (arguments.find? fun n => n ≠ .null).getD .other else .other

/-- The value that the text of a variable has for a type, if the type admits text. -/
def read? (hint : TypeHint) (s : String) : Option String :=
  match hint.deciding with
  | .text => some s
  | .choice => some s
  | _ => none

end TypeHint

end Config

namespace Setting

/-- The type of a setting. -/
def typeHint : Setting → Config.TypeHint
  | verbosity => .plain .choice
  | logFile => .applied [.text, .null]
  | _ => .plain .text

/-- The variable that gives a setting. -/
def environmentName (s : Setting) : String := "DOCOBJECTS_" ++ s.key.toUpper

end Setting

namespace Config

/-- The settings that an environment gives, as fields. -/
def environmentFields (environment : List (String × String)) : List (String × Value) :=
  Setting.all.filterMap fun s => do
    let (_, value) ← environment.find? fun p => p.1 = s.environmentName
    let read ← s.typeHint.read? value
    return (s.key, .text read)

end Config

end DocCatalog
