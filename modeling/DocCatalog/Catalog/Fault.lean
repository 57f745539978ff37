/-
**Why an operation on a catalog fails.**

Main definitions:

* `Fault`: the causes;
* `Fault.report?`: the report of a fault that is an error of the catalog itself;
* `Fault.message`: the text of any fault.
-/

import DocCatalog.Catalog.Entity
import DocCatalog.Manifest.Problem
import DocCatalog.Report

set_option autoImplicit false

namespace DocCatalog

/-- Why an operation fails. -/
inductive Fault where
  /-- The value neither is nor spells a scope. -/
  | notScope (value : Value)
  /-- The value neither is nor spells a visibility. -/
  | notVisibility (value : Value)
  /-- Nothing is registered at a path. -/
  | absent (path : Value)
  /-- A manifest is malformed, in a section or as a whole. -/
  | manifest (problem : Manifest.Problem) (part? : Option Manifest.Part)
  /-- A new entity has neither an owner nor a registry. -/
  | homeless (kind : EntityKind) (name : Value)
  /-- The entity, as shown, belongs to another registry. -/
  | foreign (shown : String)
  /-- The value, of the class given, has no items. -/
  | notIterable (className : String)
  /-- The value, of the kind given, can be no key. -/
  | unhashable (kind : String)
  /-- Parameters are given as a text. -/
  | textParameters (value : Value)
  /-- A parameter is neither a name nor a pair. -/
  | badParameter (item : Value)
  /-- The name of a parameter without default, of the class given, is no text. -/
  | unprintableName (className : String)
  /-- The attribute table of a scope was dropped. -/
  | noAttributeTable (scope : Scope)
  /-- The work was interrupted by whoever asked for it. -/
  | interrupted (message : String)

namespace Fault

/-- The report of a fault that is an error of the catalog itself. -/
def report? : Fault → Option Report
  | notScope value => some (.invalidField "scope" value (Scope.all.map Scope.word))
  | notVisibility value =>
      some (.invalidField "visibility" value (Visibility.all.map Visibility.word))
  | absent path => some (.notFound path)
  | manifest problem part? =>
      some (.manifest problem.reason ((part?.map Manifest.Part.key).getD ""))
  | _ => none

/-- The text of a fault that is not an error of the catalog itself. -/
def plainMessage : Fault → String
  | homeless kind name => kind.word ++ " " ++ name.literal ++ " needs a namespace or a registry"
  | foreign shown => shown ++ " belongs to a different registry"
  | notIterable className => "'" ++ className ++ "' object is not iterable"
  | unhashable kind => "unhashable type: '" ++ kind ++ "'"
  | textParameters value => "parameters must be a sequence, not a string: " ++ value.literal
  | badParameter item => "parameter must be a name or (name, default) pair, got " ++ item.literal
  | unprintableName className => "__str__ returned non-string (type " ++ className ++ ")"
  | noAttributeTable scope => (Value.scope scope).literal
  | interrupted message => message
  | _ => ""

/-- The text of a fault. -/
def message (f : Fault) : String :=
  match f.report? with
  | some r => r.text
  | none => f.plainMessage

/-- The word for the kind of a fault. -/
def word (f : Fault) : String :=
  match f.report? with
  | some r => r.kind.word
  | none =>
      match f with
      | homeless _ _ => "ValueError"
      | foreign _ => "ValueError"
      | noAttributeTable _ => "KeyError"
      | interrupted _ => "RuntimeError"
      | _ => "TypeError"

end Fault

end DocCatalog
