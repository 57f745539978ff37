/-
**Setting up logging again and again.**

Logging is set up anew for every load.  Whoever received records before is taken off the log, and a
console and perhaps a file are put on it.  From then on every record goes to whoever is there.

Main definitions:

* `Log.place?`: the place of the file that some settings name;
* `Log.Setup.renew`: setting up over what was set up before;
* `Log.Turn`, `Log.Turn.records`: settings with perhaps a manifest to load, and the records of that;
* `Log.State`: what is set up, and the files;
* `Log.State.setUp`, `Log.State.emit`, `Log.State.take`, `Log.State.run`: setting up, a record, a
  turn, and turns one after the other.

Main results:

* `Log.Setup.renew_eq`: nothing is left of what was set up before.
-/

import DocCatalog.Log.Routing
import DocCatalog.Manifest.Load

set_option autoImplicit false

namespace DocCatalog.Log

/-- The place of the file that some settings name; an empty name names none. -/
def place? (c : Config) : Option String := (c.logFile.filter (· ≠ "")).map FileName.resolved

/-- A file is named exactly by a name that is not empty. -/
theorem place?_isSome_iff (c : Config) :
    (place? c).isSome ↔ ∃ name, c.logFile = some name ∧ name ≠ "" := by
  unfold place?
  cases c.logFile with
  | none => simp
  | some name => by_cases h : name = "" <;> simp [h, Option.filter]

/-! ### Setting up -/

namespace Setup

/-- A log that was never set up. -/
def bare : Setup := ⟨.unset, []⟩

/-- Takes a receiver off the log. -/
def detach (s : Setup) (receiver : Receiver) : Setup :=
  { s with receivers := s.receivers.erase receiver }

/-- Puts a new receiver on the log. -/
def attach (s : Setup) (receiver : Receiver) : Setup :=
  { s with receivers := s.receivers ++ [receiver] }

/-- Sets up a log by some settings, over what was set up before. -/
def renew (s : Setup) (c : Config) : Setup :=
  let console := Level.ofVerbosity c.verbosity
  let cleared := s.receivers.foldl detach s
  let heard := cleared.attach (.console console)
  match place? c with
  | none => { heard with level := console }
  | some name => { heard.attach (.file name) with level := .debug }

theorem receivers_foldl_detach (l : List Receiver) :
    ∀ s : Setup, s.receivers = l → (l.foldl detach s).receivers = [] := by
  induction l with
  | nil => exact fun _ h => h
  | cons receiver rest ih =>
      intro s h
      exact ih _ (by simp [detach, h])

theorem ofConfig_eq (c : Config) :
    ofConfig c =
      { level := if (place? c).isSome then .debug else Level.ofVerbosity c.verbosity
        receivers := .console (Level.ofVerbosity c.verbosity) ::
          (place? c).toList.map Receiver.file } := by
  unfold ofConfig place?
  cases c.logFile with
  | none => rfl
  | some name => by_cases h : name = "" <;> simp [h, Option.filter]

/-- Nothing is left of what was set up before. -/
theorem renew_eq (s : Setup) (c : Config) : s.renew c = ofConfig c := by
  have hcleared := receivers_foldl_detach s.receivers s rfl
  rw [ofConfig_eq, renew]
  cases place? c <;> simp [attach, hcleared]

end Setup

/-! ### Turns -/

/-- Settings, and perhaps a manifest to load into a new registry with them. -/
structure Turn where
  config : Config
  manifest? : Option Value

namespace Turn

/-- The answer to the load of a turn, and what it leaves: all if it returns, and what was done until
then if it is refused. -/
def loading (t : Turn) : Option (Except Fault Unit × Catalog) :=
  t.manifest?.map fun data =>
    let (r, opened) := (default : Catalog).openRegistry t.config
    Manifest.load r data opened

/-- The records of a turn, whether its load returns or is refused. -/
def records (t : Turn) : List Notice :=
  match t.loading with
  | none => []
  | some (_, c) => c.journal

end Turn

/-- What is set up, and the files. -/
structure State where
  setup : Setup := .bare
  files : Files := ∅

namespace State

/-- Sets up the log, which makes its file if it is not there. -/
def setUp (s : State) (c : Config) : State :=
  let setup := s.setup.renew c
  { setup, files := s.files.prepare setup }

/-- Passes a record to whoever receives it. -/
def emit (s : State) (n : Notice) : State := { s with files := s.files.deliver s.setup [n] }

/-- Passes records on, one after the other. -/
def record (s : State) (notices : List Notice) : State := notices.foldl emit s

/-- A turn: its set-up and the records of its load. -/
def take (s : State) (t : Turn) : State := (s.setUp t.config).record t.records

/-- Turns, one after the other. -/
def run (s : State) (turns : List Turn) : State := turns.foldl take s

end State

end DocCatalog.Log
