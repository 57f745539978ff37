/-
**What can be wrong with a manifest.**

Main definitions:

* `Manifest.Part`: the sections of a manifest, in the order in which they are applied;
* `Manifest.Problem`: why a manifest is refused, and `Manifest.Problem.reason`, its text.
-/

import DocCatalog.Value.Text

set_option autoImplicit false

namespace DocCatalog.Manifest

/-- The sections of a manifest. -/
inductive Part where
  | namespaces
  | methods
  | attributes
  | aliases
  deriving DecidableEq, Repr

namespace Part

/-- The key of a section. -/
def key : Part → String
  | namespaces => "namespaces"
  | methods => "methods"
  | attributes => "attributes"
  | aliases => "aliases"

/-- The sections, in the order in which they are applied. -/
def all : List Part := [namespaces, methods, attributes, aliases]

@[simp] theorem mem_all (p : Part) : p ∈ all := by cases p <;> simp [all]

end Part

/-- Why a manifest is refused. -/
inductive Problem where
  /-- The manifest is not a mapping. -/
  | notMapping
  /-- There are keys that are no section's. -/
  | unknownParts (keys : List String)
  /-- A section is not a list of mappings. -/
  | notEntries
  /-- An entry lacks a field. -/
  | missing (key : String) (entry : Value)
  /-- A field is not a text. -/
  | notText (key : String) (value : Value)
  /-- A namespace path has an empty segment. -/
  | emptySegment (path : String)
  /-- The parameters of a method are not a list. -/
  | parametersNotList (value : Value)
  /-- A parameter is neither a name nor a name with a default. -/
  | badParameter (item : Value)
  /-- A line is not an integer. -/
  | lineNotInteger (value : Value)
  /-- Nothing is registered where a method should be. -/
  | noMethod (path : String)
  /-- What is registered where a method should be is none. -/
  | notMethod (path : String)

/-- The text of a problem. -/
def Problem.reason : Problem → String
  | notMapping => "top level must be an object"
  | unknownParts keys => "unknown sections: " ++ ", ".intercalate keys
  | notEntries => "expected a list of objects"
  | missing key entry => "missing " ++ Text.quote key ++ " in " ++ entry.literal
  | notText key value => Text.quote key ++ " must be a string, got " ++ value.literal
  | emptySegment path => "empty segment in namespace path " ++ Text.quote path
  | parametersNotList value => "'parameters' must be a list, got " ++ value.literal
  | badParameter item => "bad parameter " ++ item.literal
      ++ ": expected a name or [name, default]"
  | lineNotInteger value => "'line' must be an integer, got " ++ value.literal
  | noMethod path => "no method registered at " ++ Text.quote path
  | notMethod path => Text.quote path ++ " is not a method"

end DocCatalog.Manifest
