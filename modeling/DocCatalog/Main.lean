/-
**The command line.**

Reads what a request needs, runs it, and shows and leaves what comes of it.  Nothing is decided
here.
-/

import DocCatalog.Command.Run
import DocCatalog.Config.TableText
import DocCatalog.Json.Writer
import Std.Time.Format
import Std.Time.Zoned

set_option autoImplicit false

namespace DocCatalog.CommandLine

/-- What is found at the place of a file of settings. -/
def readConfigFile (name : String) : IO Config.FileState := do
  try
    return Config.TableText.read (← IO.FS.readFile name)
  catch
    | .noFileOrDirectory .. => return .missing
    | .invalidArgument .. => return .unreachable
    | problem => return .broken (toString problem)

/-- What reading a file gives. -/
def readText (name : String) : IO Command.FileText := do
  try
    let bytes ← IO.FS.readBinFile name
    match String.fromUTF8? bytes with
    | some content => return .text content
    | none => return .undecodable
  catch problem => return .unreadable (toString problem)

/-- The variables that give settings. -/
def readEnvironment : IO (List (String × String)) := do
  let found ← Setting.all.mapM fun s => do
    return (← IO.getEnv s.environmentName).map fun value => (s.environmentName, value)
  return found.filterMap id

/-- Why a log file cannot be opened; opening it makes it if it is not there. -/
def tryOpen (name : String) : IO (Option Command.OpenProblem) := do
  if !FileName.isPossible name then return some .impossibleName
  try
    let _ ← IO.FS.Handle.mk name .append
    return none
  catch
    | .invalidArgument .. => return some .longName
    | .inappropriateType .. => return some .isDirectory
    | .noFileOrDirectory .. => return some .noSuchDirectory
    | _ => return some .notDirectory

/-- How many arrays and objects one inside the other an ordinary stack has room for when a manifest
is read. -/
def depth : Nat := 982

/-- What a request finds around it. -/
def surroundings (manifest : String) (config? : Option String) (verbose : Bool) :
    IO Command.Surroundings := do
  let home := (← IO.getEnv "HOME").getD ""
  let globalName := home ++ "/.docobjects.toml"
  let projectName := toString (← IO.currentDir) ++ "/docobjects.toml"
  let global ← readConfigFile globalName
  let project ← readConfigFile projectName
  let explicit ← match config? with
    | some name => readConfigFile (FileName.normal name)
    | none => pure .missing
  let environment ← readEnvironment
  let content ← readText (FileName.normal manifest)
  let around : Command.Surroundings := {
    globalName, global, projectName, project, environment, depth
    configFile := fun _ => explicit
    file := fun _ => content
    openProblem? := fun _ => none }
  match Config.load (Command.sources around config? verbose) with
  | .error _ => return around
  | .ok config =>
      match (Log.Setup.ofConfig config).file? with
      | none => return around
      | some name =>
          let problem ← tryOpen name
          return { around with openProblem? := fun _ => problem }

/-- A table in columns. -/
def sheetText (s : Sheet) : String :=
  let rows := s.header :: s.rows
  let width (i : Nat) : Nat :=
    (rows.map fun row => ((row[i]?).map String.length).getD 0).foldl max 0
  let cell (p : String × Nat) : String := p.1.pushn ' ' (width p.2 - p.1.length)
  let line (row : List String) : String := "  ".intercalate (row.zipIdx.map cell)
  "\n".intercalate (s.title :: rows.map line)

/-- Shows what a command shows. -/
def showOutput : Command.Output → IO Unit
  | .nothing => return ()
  | .beyond => IO.eprintln "half of a surrogate pair stands alone in a text of the manifest"
  | .crash word => IO.eprintln word
  | .sheet s => IO.println (sheetText s)
  | .value v => IO.println (Json.writeIndented v)
  | .text s => IO.println s

/-- Passes the records of a command on to a receiver. -/
def passRecords (setup : Log.Setup) (notices : List Notice) (receiver : Log.Receiver) :
    IO Unit := do
  if setup.passes receiver then
    match receiver with
    | .console _ => notices.forM fun n => IO.eprintln (Log.line n)
    | .file name =>
        let time := (← Std.Time.PlainDateTime.now).format "uuuu-MM-dd HH:mm:ss,SSS"
        let file ← IO.FS.Handle.mk name .append
        notices.forM fun n => file.putStr (Log.written time n)

/-- Shows and leaves what comes of a command. -/
def finish (o : Command.Outcome) : IO UInt32 := do
  match o.setup? with
  | some setup => setup.receivers.forM (passRecords setup o.notices)
  | none => pure ()
  showOutput o.output
  return o.exitCode.toUInt32

/-- How the command line is used. -/
def usage : String :=
  "usage: inspect MANIFEST [--type TYPE]... [--json] [--config FILE] [--verbose]\n"
    ++ "       lookup MANIFEST PATH [--config FILE] [--verbose]\n"
    ++ "       version"

end DocCatalog.CommandLine

open DocCatalog in
/-- Runs the command line. -/
def main (words : List String) : IO UInt32 := do
  match Command.parse words with
  | .error .usage =>
      IO.eprintln CommandLine.usage
      return Command.usageCode.toUInt32
  | .error .impossibleName =>
      IO.eprintln Command.Crash.impossibleName.word
      return Command.failureCode.toUInt32
  | .ok .help =>
      IO.println CommandLine.usage
      return 0
  | .ok .version => do
      IO.println Command.versionText
      return 0
  | .ok (.inspect manifest tags json config? verbose) => do
      let around ← CommandLine.surroundings manifest config? verbose
      CommandLine.finish (Command.run around (.inspect manifest tags json config? verbose))
  | .ok (.lookup manifest path config? verbose) => do
      let around ← CommandLine.surroundings manifest config? verbose
      CommandLine.finish (Command.run around (.lookup manifest path config? verbose))
