/-
**Where records of the journal go.**

Setting up logging replaces what was set up before: a console, at a level that depends on the
verbosity, and a file if the settings name one.  The file receives every record, however quiet the
console is; files are appended to, and are there from the set-up on.  A file is known by the place
that its name leads to, so that all spellings of one place mean one file.

Main definitions:

* `Log.Level`: the levels of records and of what receives them;
* `Log.Setup`: what is set up, and `Log.Setup.ofConfig`, by which settings;
* `Log.line`, `Log.written`: a record as it is told, and as it stands in a file;
* `Log.fileLines`: the lines of a file after records were appended;
* `Log.Files`: the files and their records, with `Log.Files.prepare` and `Log.Files.deliver`.
-/

import DocCatalog.Catalog.Basic
import DocCatalog.FileName
import DocCatalog.Text.Lines

set_option autoImplicit false

namespace DocCatalog.Log

/-- The levels of records and of what receives them; a receiver without a level takes all. -/
inductive Level where
  | unset
  | debug
  | warning
  | error
  deriving DecidableEq, Repr

/-- The number that orders the levels. -/
def Level.number : Level → Nat
  | unset => 0
  | debug => 10
  | warning => 30
  | error => 40

/-- The level of the console at a verbosity. -/
def Level.ofVerbosity : Verbosity → Level
  | .quiet => error
  | .normal => warning
  | .verbose => debug

/-- The level at which events are recorded. -/
def eventLevel : Level := .debug

/-- The word for that level. -/
def eventLevelWord : String := "DEBUG"

/-- Who receives records: the console, or the file at a place. -/
inductive Receiver where
  | console (level : Level)
  | file (name : String)
  deriving DecidableEq, Repr

namespace Receiver

/-- The least level that a receiver takes. -/
def level : Receiver → Level
  | console l => l
  | file _ => .unset

/-- The word for the kind of a receiver. -/
def word : Receiver → String
  | console _ => "RichHandler"
  | file _ => "FileHandler"

end Receiver

/-- What is set up: the least level that is passed on, and who receives. -/
structure Setup where
  level : Level
  receivers : List Receiver
  deriving DecidableEq

namespace Setup

/-- The name of the log that is set up, which passes nothing on beyond its receivers. -/
def logName : String := "docobjects"

/-- What some settings set up.  With a file every record is passed on, so that the file misses none.
-/
def ofConfig (c : Config) : Setup :=
  let console := Level.ofVerbosity c.verbosity
  match c.logFile with
  | none => ⟨console, [.console console]⟩
  | some name =>
      if name = "" then ⟨console, [.console console]⟩
      else ⟨.debug, [.console console, .file (FileName.resolved name)]⟩

/-- The file that receives records, if one does. -/
def file? (s : Setup) : Option String :=
  s.receivers.findSome? fun
    | .file name => some name
    | .console _ => none

/-- Whether records of events are passed on to a receiver. -/
def passes (s : Setup) (receiver : Receiver) : Bool :=
  s.level.number ≤ eventLevel.number && receiver.level.number ≤ eventLevel.number

end Setup

/-- A record as it is told. -/
def line (n : Notice) : String :=
  n.event.logger ++ " " ++ eventLevelWord ++ " " ++ n.event.message

/-- A record as it stands in a file: its time, the record, and the end of the line. -/
def written (time : String) (n : Notice) : String := time ++ " " ++ line n ++ "\n"

/-- The lines of a file to whose text records were appended.  A record takes one line, unless names
with line ends occur in its message. -/
def fileLines (before time : String) (notices : List Notice) : List String :=
  let text := before ++ String.join (notices.map (written time))
  (Text.lines text.toList).map String.ofList

/-- Files, by their places, and their records. -/
abbrev Files := OrderedTable String (List Notice)

namespace Files

/-- The files after a set-up, which makes its file if it is not there. -/
def prepare (files : Files) (s : Setup) : Files :=
  match s.file? with
  | none => files
  | some name => if files.contains name then files else files.insert name []

/-- The files after records were passed to what is set up. -/
def deliver (files : Files) (s : Setup) (notices : List Notice) : Files :=
  s.receivers.foldl (fun files receiver =>
    match receiver with
    | .file name =>
        if s.passes receiver then
          files.insert name ((files.get? name).getD [] ++ notices)
        else files
    | .console _ => files) files

end Files

end DocCatalog.Log
