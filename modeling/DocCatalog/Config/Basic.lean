/-
**The settings of a session.**

Settings arrive as values of any kind and are checked together: each kind first, then the separators
for being empty, then for being equal, then the two closed sets.  The first check that fails is the
one reported.  Settings that pass are a `Config`, which carries the proof that its separators can be
told apart.

Main definitions:

* `Setting`, `Setting.key`: the settings and the keys they are written under;
* `Config`: settings that passed every check;
* `Config.Draft`: settings as given;
* `Config.Problem`: why a draft is refused, with the setting it is reported under and its text;
* `Config.Draft.check`: the checks, in their order.
-/

import DocCatalog.Path
import DocCatalog.Value.Basic

set_option autoImplicit false

namespace DocCatalog

/-- How much a session tells on the console. -/
inductive Verbosity where
  | quiet
  | normal
  | verbose
  deriving DecidableEq, Repr

/-- The word a verbosity is written as. -/
def Verbosity.word : Verbosity → String
  | quiet => "quiet"
  | normal => "normal"
  | verbose => "verbose"

/-- All verbosities, the quietest first. -/
def Verbosity.all : List Verbosity := [quiet, normal, verbose]

@[simp] theorem Verbosity.mem_all (v : Verbosity) : v ∈ Verbosity.all := by
  cases v <;> simp [Verbosity.all]

theorem Verbosity.word_injective {v w : Verbosity} (h : v.word = w.word) : v = w := by
  cases v <;> cases w <;> simp [Verbosity.word] at h ⊢

/-- The settings, in the order in which they are checked. -/
inductive Setting where
  | namespaceSeparator
  | classMethodSeparator
  | instanceSeparator
  | defaultVisibility
  | verbosity
  | logFile
  deriving DecidableEq, Repr

namespace Setting

/-- The key a setting is written under. -/
def key : Setting → String
  | namespaceSeparator => "namespace_separator"
  | classMethodSeparator => "class_method_separator"
  | instanceSeparator => "instance_separator"
  | defaultVisibility => "default_visibility"
  | verbosity => "verbosity"
  | logFile => "log_file"

/-- All settings. -/
def all : List Setting :=
  [namespaceSeparator, classMethodSeparator, instanceSeparator, defaultVisibility, verbosity,
    logFile]

@[simp] theorem mem_all (s : Setting) : s ∈ all := by cases s <;> simp [all]

/-- The setting that a key names. -/
def ofKey? (k : String) : Option Setting := all.find? fun s => s.key = k

theorem ofKey?_key (s : Setting) : ofKey? s.key = some s := by cases s <;> decide +kernel

theorem ofKey?_eq_some_iff {k : String} {t : Setting} : ofKey? k = some t ↔ t.key = k := by
  constructor
  · intro h
    simpa using List.find?_some h
  · rintro rfl
    exact ofKey?_key t

theorem key_injective {t u : Setting} (h : t.key = u.key) : t = u :=
  Option.some.inj ((ofKey?_key t).symm.trans (ofKey?_eq_some_iff.2 h.symm))

/-- The value that a setting has unless one is given. -/
def default : Setting → Value
  | namespaceSeparator => .text "::"
  | classMethodSeparator => .text "."
  | instanceSeparator => .text "#"
  | defaultVisibility => .text "public"
  | verbosity => .text "normal"
  | logFile => .null

end Setting

/-- The settings of a session, all checks passed. -/
structure Config where
  separators : Separators := {}
  visibility : Visibility := .publicAccess
  verbosity : Verbosity := .normal
  logFile : Option String := none
  distinct : separators.Distinct := by decide
  deriving DecidableEq

namespace Config

instance : Inhabited Config := ⟨{}⟩

/-- The value of a setting. -/
def get (c : Config) : Setting → Value
  | .namespaceSeparator => .text c.separators.nested
  | .classMethodSeparator => .text c.separators.onClass
  | .instanceSeparator => .text c.separators.onInstance
  | .defaultVisibility => .text c.visibility.word
  | .verbosity => .text c.verbosity.word
  | .logFile => .ofText? c.logFile

/-! ### What can be wrong -/

/-- Why settings are refused. -/
inductive Problem where
  /-- The setting is not a text, but of the kind given. -/
  | notText (setting : Setting) (kind : String)
  /-- The separator is empty. -/
  | emptySeparator (setting : Setting)
  /-- The separator of instance methods equals another one. -/
  | instanceClash
  /-- The separators of class methods and of namespaces are equal. -/
  | classClash
  | unknownVisibility
  | unknownVerbosity
  deriving DecidableEq

namespace Problem

/-- The setting that a problem is reported under. -/
def setting : Problem → Setting
  | notText s _ => s
  | emptySeparator s => s
  | instanceClash => .instanceSeparator
  | classClash => .classMethodSeparator
  | unknownVisibility => .defaultVisibility
  | unknownVerbosity => .verbosity

/-- The text of a problem without the setting that it begins with. -/
def predicate : Problem → String
  | notText _ kind => "must be a string, got " ++ kind
  | emptySeparator _ => "must not be empty"
  | instanceClash => "must differ from the class separators"
  | classClash => "must differ from " ++ Setting.namespaceSeparator.key
  | unknownVisibility => "must be one of " ++ ", ".intercalate (Visibility.all.map Visibility.word)
  | unknownVerbosity => "must be one of " ++ ", ".intercalate (Verbosity.all.map Verbosity.word)

/-- The text of a problem. -/
def message (p : Problem) : String := p.setting.key ++ " " ++ p.predicate

end Problem

/-! ### The checks -/

/-- Settings as given, before any check. -/
def Draft := Setting → Value

namespace Draft

/-- No setting given. -/
def default : Draft := Setting.default

/-- The draft with one setting given. -/
def set (d : Draft) (s : Setting) (v : Value) : Draft := fun t => if t = s then v else d t

/-- A setting that must be a text. -/
def textOf (d : Draft) (s : Setting) : Except Problem String :=
  match d s with
  | .text t => .ok t
  | v => .error (.notText s v.kindName)

/-- A setting that must be a text or null. -/
def textOrNull (d : Draft) (s : Setting) : Except Problem (Option String) :=
  match d s with
  | .null => .ok none
  | .text t => .ok (some t)
  | v => .error (.notText s v.kindName)

/-- Refuses unless a condition holds. -/
def require (p : Prop) [Decidable p] (problem : Problem) : Except Problem (PLift p) :=
  if h : p then .ok ⟨h⟩ else .error problem

/-- A text that must be a word of a closed set. -/
def member {α : Type} (members : List α) (word : α → String) (t : String) (problem : Problem) :
    Except Problem α :=
  match members.find? fun m => word m = t with
  | some m => .ok m
  | none => .error problem

/-- The checks, in their order.  Words of the closed sets must be spelled exactly here. -/
def check (d : Draft) : Except Problem Config := do
  let nested ← d.textOf .namespaceSeparator
  let onClass ← d.textOf .classMethodSeparator
  let onInstance ← d.textOf .instanceSeparator
  let visibility ← d.textOf .defaultVisibility
  let verbosity ← d.textOf .verbosity
  let logFile ← d.textOrNull .logFile
  let ⟨h₁⟩ ← require (nested ≠ "") (.emptySeparator .namespaceSeparator)
  let ⟨h₂⟩ ← require (onClass ≠ "") (.emptySeparator .classMethodSeparator)
  let ⟨h₃⟩ ← require (onInstance ≠ "") (.emptySeparator .instanceSeparator)
  let ⟨h₄⟩ ← require (onInstance ≠ nested ∧ onInstance ≠ onClass) .instanceClash
  let ⟨h₅⟩ ← require (onClass ≠ nested) .classClash
  let visibility ← member Visibility.all Visibility.word visibility .unknownVisibility
  let verbosity ← member Verbosity.all Verbosity.word verbosity .unknownVerbosity
  return {
    separators := { nested, onClass, onInstance }
    visibility, verbosity, logFile
    distinct := ⟨h₁, h₂, h₃, h₄.1, h₄.2, h₅⟩ }

end Draft

end Config

end DocCatalog
