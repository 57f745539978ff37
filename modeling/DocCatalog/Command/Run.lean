/-
**Running a command.**

A command that shows a registry reads the settings, sets up logging, reads the manifest and loads
it. The first of these that fails is told, as text or, if asked for, as a mapping; what none of them
foresees ends the command without a word of its own.

A manifest with half of a surrogate pair alone in a text of it has no value here, as texts consist
of characters.  What comes of such a manifest is not said (`Command.Failure.beyond`).

Main definitions:

* `Command.FileText`, `Command.Surroundings`: what a command finds around it;
* `Command.Crash`, `Command.Failure`: why a registry is not shown;
* `Command.Output`, `Command.Outcome`: what a command shows and leaves;
* `Command.build`: the registry of a manifest;
* `Command.run`: what a request shows and leaves.
-/

import DocCatalog.Command.Arguments
import DocCatalog.Command.Markup
import DocCatalog.Config.Layers
import DocCatalog.Export.Listing
import DocCatalog.FileName
import DocCatalog.Json.Reader
import DocCatalog.Log.Routing
import DocCatalog.Manifest.Load

set_option autoImplicit false

namespace DocCatalog.Command

/-! ### Around a command -/

/-- What reading a file gives. -/
inductive FileText where
  /-- The file cannot be read, for the reason given. -/
  | unreadable (reason : String)
  /-- The file holds bytes that are no text. -/
  | undecodable
  | text (content : String)

/-- Why a log file cannot be opened. -/
inductive OpenProblem where
  | noSuchDirectory
  | isDirectory
  | notDirectory
  /-- There can be no file of the name. -/
  | impossibleName
  /-- A segment of the name, or all of it, is longer than names may be. -/
  | longName
  deriving DecidableEq, Repr

/-- What a command finds around it: the files of settings, the explicit one by name, and the
environment; what reading a file gives, and how many arrays and objects one inside the other there
is room for when a manifest is read; whether a log file can be opened; and the terminal. -/
structure Surroundings where
  globalName : String
  global : Config.FileState
  projectName : String
  project : Config.FileState
  configFile : String → Config.FileState
  environment : List (String × String)
  file : String → FileText
  depth : Nat
  /-- How a manifest that is no JSON text is told. -/
  syntaxReason : String := "not a JSON text"
  openProblem? : String → Option OpenProblem
  /-- A text as the terminal shows it, unless a style mark in it closes none. -/
  marked? : String → Option String := fun text => some (Markup.shown text)
  /-- Whether the encoding of the terminal has a character. -/
  encodes : Char → Bool := fun _ => true

/-! ### What can go wrong -/

/-- What ends a command without a word of its own. -/
inductive Crash where
  /-- There can be no file of a name that is given. -/
  | impossibleName
  /-- Whether there is a file of settings cannot be told. -/
  | unreachableConfig
  /-- Settings have unknown keys without an order between them. -/
  | unorderedKeys
  /-- Settings are refused for a key or a value with an integer that cannot be written. -/
  | overlongSetting
  | logFile (problem : OpenProblem)
  | undecodable
  | hugeInteger
  | tooDeep
  /-- A text that is to be shown has a style mark that closes none. -/
  | strayMark
  /-- The encoding of the terminal lacks a character that is to be shown. -/
  | unencodable
  /-- Loading failed with a fault that is no error of the catalog. -/
  | fault (f : Fault)

/-- The word for a crash. -/
def Crash.word : Crash → String
  | impossibleName => "ValueError"
  | unreachableConfig => "OSError"
  | unorderedKeys => "TypeError"
  | overlongSetting => "ValueError"
  | logFile .noSuchDirectory => "FileNotFoundError"
  | logFile .isDirectory => "IsADirectoryError"
  | logFile .notDirectory => "NotADirectoryError"
  | logFile .impossibleName => "ValueError"
  | logFile .longName => "OSError"
  | undecodable => "UnicodeDecodeError"
  | hugeInteger => "ValueError"
  | tooDeep => "RecursionError"
  | strayMark => "MarkupError"
  | unencodable => "UnicodeEncodeError"
  | fault f => f.word

/-- Why a registry is not shown: an error that is told, or a crash. -/
inductive Failure where
  | told (r : Report)
  | crashed (c : Crash)
  /-- In a text of the manifest half of a surrogate pair stands alone, and what is shown is not
  said. -/
  | beyond

/-- A fault as a failure. -/
def Failure.ofFault (f : Fault) : Failure :=
  match f.report? with
  | some r => told r
  | none => crashed (.fault f)

/-- A fault of the settings as a failure. -/
def Failure.ofLoadFault (f : Config.LoadFault) : Failure :=
  match f.told?, f with
  | some r, _ => told r
  | none, .unreachable _ => crashed .unreachableConfig
  | none, .unordered _ _ => crashed .unorderedKeys
  | none, _ => crashed .overlongSetting

/-- A report as a mapping. -/
def reportValue (r : Report) : Value :=
  .dict [
    ("type", .text r.kind.word),
    ("message", .text r.message),
    ("details", .dict (r.details.map fun d => (d.1, .text d.2)))]

/-! ### What a command leaves -/

/-- What a command shows. -/
inductive Output where
  | nothing
  /-- What is shown is not said. -/
  | beyond
  | crash (word : String)
  | sheet (s : Sheet)
  | value (v : Value)
  | text (s : String)

/-- What a command shows and leaves: its exit code, what it shows, what was set up for its records,
and the records. -/
structure Outcome where
  exitCode : Nat
  output : Output
  setup? : Option Log.Setup := none
  notices : List Notice := []

/-- The exit code of a command line that is not well formed. -/
def usageCode : Nat := 2

/-- The exit code of a command that fails. -/
def failureCode : Nat := 1

/-! ### The registry of a manifest -/

/-- The sources of the settings of a command. -/
def sources (w : Surroundings) (config? : Option String) (verbose : Bool) : Config.Sources where
  globalName := w.globalName
  global := w.global
  projectName := w.projectName
  project := w.project
  explicit? := config?.map fun name => (FileName.normal name, w.configFile (FileName.normal name))
  environment := w.environment
  overrides := [("verbose", .bool verbose)]

/-- The error of a manifest that cannot be read. -/
def unreadable (name reason : String) : Report where
  kind := .general
  message := "Cannot read manifest '" ++ name ++ "': " ++ reason

/-- The data of a manifest. -/
def readManifest (w : Surroundings) (name : String) : Except Failure Value :=
  match w.file name with
  | .unreadable reason => .error (.told (unreadable name reason))
  | .undecodable => .error (.crashed .undecodable)
  | .text content =>
      match Json.parse w.depth content with
      | .ok term =>
          match term.value? with
          | some data => .ok data
          | none => .error .beyond
      | .error .malformed => .error (.told (unreadable name w.syntaxReason))
      | .error .hugeInteger => .error (.crashed .hugeInteger)
      | .error .tooDeep => .error (.crashed .tooDeep)

/-- What is left of building the registry of a manifest, whether it succeeds or not. -/
structure Built where
  result : Except Failure Registry
  catalog : Catalog := {}
  setup? : Option Log.Setup := none

/-- Loads data into a new registry with some settings. -/
def loadInto (config : Config) (setup : Log.Setup) (data : Value) : Built :=
  let (r, opened) := (default : Catalog).openRegistry config
  let (result, catalog) := Manifest.load r data opened
  { result := match result with
      | .ok () => .ok r
      | .error fault => .error (.ofFault fault)
    catalog
    setup? := some setup }

/-- The registry of a manifest: settings, logging, data, loading. -/
def build (w : Surroundings) (manifest : String) (config? : Option String) (verbose : Bool) :
    Built :=
  match Config.load (sources w config? verbose) with
  | .error fault => { result := .error (.ofLoadFault fault) }
  | .ok config =>
      let setup := Log.Setup.ofConfig config
      match setup.file?.bind w.openProblem? with
      | some problem => { result := .error (.crashed (.logFile problem)) }
      | none =>
          match readManifest w (FileName.normal manifest) with
          | .error failure => { result := .error failure, setup? := some setup }
          | .ok data => loadInto config setup data

/-! ### The terminal -/

/-- The texts that an output shows. -/
def Output.texts : Output → List String
  | sheet s => s.title :: s.header ++ s.rows.flatten
  | value v => v.texts
  | text s => [s]
  | _ => []

/-- Whether the encoding of the terminal has all that an output shows. -/
def Surroundings.canShow (w : Surroundings) (output : Output) : Bool :=
  output.texts.all fun s => s.toList.all w.encodes

/-- What a text of some marks shows, behind a label, if it can be shown. -/
def markedText (w : Surroundings) (label text : String) : Except Crash Output :=
  match w.marked? text with
  | some shown => .ok (.text (label ++ shown))
  | none => .error .strayMark

/-- A table as it is shown on a terminal, if all its texts can be shown. -/
def markedSheet? (w : Surroundings) (s : Sheet) : Option Sheet := do
  let title ← w.marked? s.title
  let rows ← s.rows.mapM fun row => row.mapM w.marked?
  return { title, header := s.header, rows }

/-- What is left of a command that is to show something, with an exit code. -/
def shown (w : Surroundings) (built : Built) (code : Nat) (output : Except Crash Output) :
    Outcome :=
  let left (exitCode : Nat) (output : Output) : Outcome :=
    { exitCode, output, setup? := built.setup?, notices := built.catalog.journal }
  match output with
  | .ok output =>
      if w.canShow output then left code output
      else left failureCode (.crash Crash.unencodable.word)
  | .error crash => left failureCode (.crash crash.word)

/-! ### Requests -/

/-- A failure, told as a mapping or as text. -/
def failed (w : Surroundings) (built : Built) (json : Bool) (failure : Failure) : Outcome :=
  shown w built failureCode <| match failure with
    | .crashed c => .error c
    | .beyond => .ok .beyond
    | .told r =>
        if json then .ok (.value (.dict [("error", reportValue r)]))
        else markedText w "Error: " r.text

/-- The entities of some filters as data. -/
def listed (c : Catalog) (r : Registry) (filters : List Catalog.Filter) : Except Crash Output :=
  match c.listing r filters with
  | .ok l => .ok (.value l.toValue)
  | .error fault => .error (.fault fault)

/-- The entities of some filters as a table. -/
def tabled (w : Surroundings) (c : Catalog) (r : Registry) (filters : List Catalog.Filter) :
    Except Crash Output :=
  match c.sheet r filters "" with
  | .ok s =>
      match markedSheet? w s with
      | some s => .ok (.sheet s)
      | none => .error .strayMark
  | .error fault => .error (.fault fault)

/-- The registry of a manifest, all of it or the entities of some tags. -/
def inspect (w : Surroundings) (built : Built) (tags : List String) (json : Bool) : Outcome :=
  match built.result with
  | .error failure => failed w built json failure
  | .ok r =>
      let filters := tags.map Catalog.Filter.tag
      shown w built 0 <|
        if json then listed built.catalog r filters else tabled w built.catalog r filters

/-- The entity at a path in the registry of a manifest. -/
def lookup (w : Surroundings) (built : Built) (path : String) : Outcome :=
  match built.result with
  | .error failure => failed w built false failure
  | .ok r =>
      match built.catalog.lookup? r path with
      | some e =>
          shown w built 0 <| match built.catalog.record e with
            | .ok x => .ok (.value x.toValue)
            | .error fault => .error (.fault fault)
      | none => shown w built failureCode (markedText w "Not found: " path)

/-- The text of the version. -/
def versionText : String := "docobjects 0.1.0"

/-- What a request shows and leaves. -/
def run (w : Surroundings) : Request → Outcome
  | .help => { exitCode := 0, output := .nothing }
  | .version => { exitCode := 0, output := .text versionText }
  | .inspect manifest tags json config? verbose =>
      inspect w (build w manifest config? verbose) tags json
  | .lookup manifest path config? verbose => lookup w (build w manifest config? verbose) path

/-- What a command line shows and leaves. -/
def runLine (w : Surroundings) (words : List String) : Outcome :=
  match parse words with
  | .ok request => run w request
  | .error .usage => { exitCode := usageCode, output := .nothing }
  | .error .impossibleName =>
      { exitCode := failureCode, output := .crash Crash.impossibleName.word }

end DocCatalog.Command
