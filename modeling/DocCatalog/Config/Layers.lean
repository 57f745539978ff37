/-
**Settings from all their sources.**

Settings are read in layers, each written over those below: the global file, the project's file, an
explicit file, the environment, and the overrides of the call.  What comes out must have no unknown
key and pass the checks of `Config.Draft.check`; the defaults stand for what no layer gives.

Main definitions:

* `Config.FileState`, `Config.Sources`: what the layers are read from;
* `Config.Sources.merge`: all layers, one over the other;
* `Config.keyBefore?`: the order of keys, those of different kinds having none;
* `Config.LoadFault`: why no settings come out, with `Config.LoadFault.report?`, what there is to
  tell of it, and `Config.LoadFault.told?`, what is told;
* `Config.load`: the settings that come out.
-/

import DocCatalog.Config.Environment
import DocCatalog.Config.Merge
import DocCatalog.Report

set_option autoImplicit false

namespace DocCatalog.Config

/-- What is found at the place of a configuration file. -/
inductive FileState where
  | missing
  /-- Whether there is anything cannot be told. -/
  | unreachable
  /-- There is something that cannot be read, for the reason given. -/
  | broken (reason : String)
  /-- There is a table.  A file holds no nulls, tuples or members of closed sets, but nothing
  depends on that. -/
  | table (fields : List (String × Value))

/-- The files that are read, from the most general to the most particular. -/
inductive FileRole where
  | global
  | project
  | explicit
  deriving DecidableEq, Repr

/-- How a file is called in messages. -/
def FileRole.title : FileRole → String
  | global => "global config"
  | project => "project config"
  | explicit => "config file"

/-- What the layers are read from.  A file has the name by which messages call it, and there need
not be an explicit one. -/
structure Sources where
  globalName : String
  global : FileState := .missing
  projectName : String
  project : FileState := .missing
  explicit? : Option (String × FileState) := none
  environment : List (String × String) := []
  overrides : List (String × Value) := []

/-- Why no settings come out. -/
inductive LoadFault where
  /-- A file is no table of fields. -/
  | unusable (role : FileRole) (name : String) (reason : String)
  /-- Whether a file exists cannot be told. -/
  | unreachable (name : String)
  /-- The explicit file does not exist. -/
  | absent (name : String)
  /-- The smallest key that is no setting's, with its value. -/
  | unknownKey (key : Value) (value : Value)
  /-- Two keys that are no setting's, of the classes given, have no order between them. -/
  | unordered (className other : String)
  /-- The settings are refused; with the value of the setting reported. -/
  | refused (problem : Problem) (value : Value)
  deriving DecidableEq

namespace LoadFault

/-- What there is to tell of a fault, unless it is one of order or a file cannot be reached. -/
def report? : LoadFault → Option Report
  | unusable role name reason => some {
      kind := .configuration
      message := "Invalid " ++ role.title ++ " '" ++ name ++ "': " ++ reason }
  | unreachable _ => none
  | absent name => some { kind := .configuration, message := "Config file not found: " ++ name }
  | unknownKey key value => some (.invalidConfig key.display value "unknown configuration key")
  | unordered _ _ => none
  | refused problem value => some (.invalidConfig problem.setting.key value problem.message)

/-- Whether the key or the value of a fault has an integer with too many digits to be written. -/
def isOverlong : LoadFault → Bool
  | unknownKey key value => key.isOverlong || value.isOverlong
  | refused _ value => value.isOverlong
  | _ => false

/-- What is told of a fault: what there is to tell, if all of it can be written. -/
def told? (f : LoadFault) : Option Report := if f.isOverlong then none else f.report?

/-- The text of a fault of order.  Two days with a time have none if only one is at an offset, and a
day with a time has none with a day alone. -/
def unorderedMessage (className other : String) : String :=
  let day := (Moment.day 1).className
  let dayTime := (Moment.dayTime 0).className
  if className = dayTime ∧ other = dayTime then
    "can't compare offset-naive and offset-aware datetimes"
  else if [className, other].Perm [day, dayTime] then
    "can't compare " ++ dayTime ++ " to " ++ day
  else "'<' not supported between instances of '" ++ className ++ "' and '" ++ other ++ "'"

/-- The text of a fault with an integer that cannot be written. -/
def overlongMessage : String :=
  "Exceeds the limit (" ++ toString Value.digitLimit ++ " digits) for integer string conversion; "
    ++ "use sys.set_int_max_str_digits() to increase the limit"

end LoadFault

/-! ### Files -/

/-- The layer of a file: the table under its own key if it has one, all its fields otherwise. -/
def layerOf (fields : List (String × Value)) : Value :=
  (Value.field? fields "docobjects").getD (.dict fields)

/-- Settings with a file's layer written over them; a missing file has none. -/
def writeFile (role : FileRole) (name : String) (state : FileState) (below : ValueTable Value) :
    Except LoadFault (ValueTable Value) :=
  match state with
  | .missing => .ok below
  | .unreachable => .error (.unreachable name)
  | .broken reason => .error (.unusable role name reason)
  | .table fields =>
      match Merge.update below (layerOf fields) with
      | .ok above => .ok above
      | .error problem => .error (.unusable role name problem.message)

/-- Settings with the explicit file's layer written over them, if there is one; it must exist. -/
def writeExplicit (explicit? : Option (String × FileState)) (below : ValueTable Value) :
    Except LoadFault (ValueTable Value) :=
  match explicit? with
  | none => .ok below
  | some (name, .missing) => .error (.absent name)
  | some (name, state) => writeFile .explicit name state below

/-! ### Overrides -/

/-- Overrides with a switch turned into the verbosity it stands for: a switch that is on replaces
the verbosity given, one that is off does nothing, and neither stays. -/
def resolveSwitch (switch : String) (verbosity : Verbosity)
    (overrides : OrderedTable String Value) : OrderedTable String Value :=
  match overrides.get? switch with
  | none => overrides
  | some v =>
      let table := if v.isTruthy then
          overrides.insert Setting.verbosity.key (.text verbosity.word)
        else overrides
      table.erase switch

/-- The fields of the overrides: of the two switches, the one for quiet has the last word. -/
def overrideFields (overrides : List (String × Value)) : List (String × Value) :=
  (resolveSwitch "quiet" .quiet
    (resolveSwitch "verbose" .verbose (OrderedTable.ofList overrides))).toList

/-! ### All layers -/

/-- Settings with fields written over them. -/
def writeFields (fields : List (String × Value)) (below : ValueTable Value) : ValueTable Value :=
  Merge.writeAll below (fields.map fun p => (.text p.1, p.2))

/-- All layers, one over the other. -/
def Sources.merge (s : Sources) : Except LoadFault (ValueTable Value) := do
  let merged ← writeFile .global s.globalName s.global ∅
  let merged ← writeFile .project s.projectName s.project merged
  let merged ← writeExplicit s.explicit? merged
  let merged := writeFields (environmentFields s.environment) merged
  return writeFields (overrideFields s.overrides) merged

/-! ### Unknown keys -/

/-- The size of a number, for comparing it. -/
inductive Size where
  | fraction (numerator : Int) (denominator : Nat)
  | infinity (negative : Bool)
  | nan

/-- Whether a size is below another; what is not a number is neither below nor above any. -/
def Size.below : Size → Size → Bool
  | fraction m p, fraction n q => m * q < n * p
  | fraction .., infinity false => true
  | infinity true, fraction .. => true
  | infinity true, infinity false => true
  | _, _ => false

/-- The size of a number; a truth value counts as zero or one. -/
def size? : Value → Option Size
  | .bool b => some (.fraction (if b then 1 else 0) 1)
  | .int n => some (.fraction n 1)
  | .float (.finite negative m e) =>
      let n : Int := if negative then -(m : Int) else m
      some (if 0 ≤ e then .fraction (n * Nat.pow 2 e.toNat) 1
        else .fraction n (Nat.pow 2 (-e).toNat))
  | .float (.infinity negative) => some (.infinity negative)
  | .float .nan => some .nan
  | _ => none

/-- Whether one key comes before another, where they have an order: texts by code points, numbers
by size, and moments of one kind by time. -/
def keyBefore? (a b : Value) : Option Bool :=
  match a, b with
  | .text s, .text t => some (s < t)
  | .moment m, .moment n => m.before? n
  | _, _ => do
      let x ← size? a
      let y ← size? b
      return x.below y

/-- The fault of two keys without an order, of which a text is named first. -/
def unorderedKeys (a b : Value) : LoadFault :=
  if a.text?.isSome then .unordered a.className b.className
  else .unordered b.className a.className

/-- The smallest of some keyed values; two keys without an order are a fault. -/
def leastKey (best : Value × Value) : List (Value × Value) → Except LoadFault (Value × Value)
  | [] => .ok best
  | p :: rest =>
      match keyBefore? p.1 best.1 with
      | some true => leastKey p rest
      | some false => leastKey best rest
      | none => .error (unorderedKeys p.1 best.1)

/-- Whether a key is that of a setting. -/
def isSettingKey (key : Value) : Bool :=
  match key with
  | .text k => (Setting.ofKey? k).isSome
  | _ => false

/-- Refuses settings with an unknown key, of which it reports the smallest. -/
def refuseUnknown (merged : ValueTable Value) : Except LoadFault Unit :=
  match merged.entries.filter fun p => !isSettingKey p.1 with
  | [] => .ok ()
  | p :: rest => do
      let (key, value) ← leastKey p rest
      throw (.unknownKey key value)

/-! ### The result -/

/-- The draft that merged layers amount to. -/
def draftOf (merged : ValueTable Value) : Draft := fun s =>
  (merged.find? (.text s.key)).getD s.default

/-- The settings that come out of all sources.  Settings that are refused are reported with the
value given for the setting at fault, which is null if none was given. -/
def load (s : Sources) : Except LoadFault Config := do
  let merged ← s.merge
  refuseUnknown merged
  match (draftOf merged).check with
  | .ok config => return config
  | .error problem =>
      throw (.refused problem ((merged.find? (.text problem.setting.key)).getD .null))

end DocCatalog.Config
