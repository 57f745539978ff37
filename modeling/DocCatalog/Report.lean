/-
**Errors as they are told.**

An error that the catalog itself makes has a kind, a message, and details: the fields of the
failure, in order, as texts.  Its text is the message with the details behind it.

Main definitions:

* `ErrorKind`: the kinds, and `ErrorKind.ancestry`, each kind with the more general ones above it;
* `Report`: an error as it is told, and `Report.text`, its text;
* `Report.invalidField`, `Report.notFound`, `Report.manifest`, `Report.invalidConfig`: the reports
  of the special kinds.
-/

import DocCatalog.Value.Text

set_option autoImplicit false

namespace DocCatalog

/-- The kinds of error. -/
inductive ErrorKind where
  | general
  | model
  | invalidField
  | notFound
  | manifest
  | configuration
  | invalidConfig
  deriving DecidableEq, Repr

namespace ErrorKind

/-- The word for a kind. -/
def word : ErrorKind → String
  | general => "DocObjectsError"
  | model => "ModelError"
  | invalidField => "InvalidFieldValue"
  | notFound => "EntityNotFoundError"
  | manifest => "ManifestError"
  | configuration => "ConfigurationError"
  | invalidConfig => "InvalidConfigError"

/-- A kind and the more general ones above it, ending in the most general. -/
def ancestry : ErrorKind → List ErrorKind
  | general => [general]
  | model => [model, general]
  | invalidField => [invalidField, model, general]
  | notFound => [notFound, model, general]
  | manifest => [manifest, model, general]
  | configuration => [configuration, general]
  | invalidConfig => [invalidConfig, configuration, general]

/-- All kinds. -/
def all : List ErrorKind :=
  [general, model, invalidField, notFound, manifest, configuration, invalidConfig]

/-- The kind that a word names. -/
def ofWord? (w : String) : Option ErrorKind := all.find? fun k => k.word = w

end ErrorKind

/-- An error as it is told. -/
structure Report where
  kind : ErrorKind
  message : String
  details : List (String × String) := []
  deriving DecidableEq

namespace Report

/-- The message, and behind it the details in brackets if there are any. -/
def text (r : Report) : String :=
  if r.details = [] then r.message
  else
    let shown := r.details.map fun d => d.1 ++ "=" ++ d.2
    r.message ++ " (" ++ ", ".intercalate shown ++ ")"

/-- A field has a value outside its closed set. -/
def invalidField (field : String) (value : Value) (allowed : List String) : Report where
  kind := .invalidField
  message := "Invalid value for " ++ field ++ ": " ++ value.literal
  details := [("field", field), ("value", value.literal), ("allowed", "|".intercalate allowed)]

/-- Nothing is registered at a path. -/
def notFound (path : Value) : Report where
  kind := .notFound
  message := "No entity registered at " ++ path.literal
  details := [("path", path.display)]

/-- A manifest is malformed, in one of its sections or as a whole. -/
def manifest (reason : String) (part : String) : Report where
  kind := .manifest
  message := "Invalid manifest: " ++ reason
  details := ("reason", reason) :: if part = "" then [] else [("section", part)]

/-- A setting has a value that is refused. -/
def invalidConfig (key : String) (value : Value) (reason : String) : Report where
  kind := .invalidConfig
  message := "Invalid configuration for " ++ key ++ ": " ++ value.display
  details := [("key", key), ("value", value.display), ("reason", reason)]

end Report

end DocCatalog
