/-
**Which records come to which file.**

What is set up depends on the settings of the last set-up alone, so between two set-ups all records
go to the file that the settings name, however quiet the console is.  Files are appended to, and no
set-up takes anything out of them.  So in the end a file holds what it held at first, and then the
records of all turns whose settings name it, in the order of the turns.

Main definitions:

* `Log.recordsFor`: the records of the turns whose settings name a place.

Main results:

* `Log.Files.get?_prepare`, `Log.Files.get?_deliver`: what is in a file after a set-up and after
  records;
* `Log.State.get?_take`, `Log.State.get?_run`: what is in a file after a turn, and after turns;
* `Log.State.records_routed`: **what every set-up leaves on the log, and what is in every file in
  the end**.
-/

import DocCatalog.Log.Turns

set_option autoImplicit false

namespace DocCatalog.Log

variable {c : Config} {place : String}

/-! ### Files -/

namespace Files

theorem file?_ofConfig (c : Config) : (Setup.ofConfig c).file? = place? c := by
  rw [Setup.ofConfig_eq]
  cases h : place? c <;> simp [Setup.file?]

/-- A set-up makes its file and leaves every text as it is. -/
theorem get?_prepare (files : Files) (c : Config) (place : String) :
    (files.prepare (Setup.ofConfig c)).get? place =
      if place? c = some place then some ((files.get? place).getD []) else files.get? place := by
  rw [prepare, file?_ofConfig]
  cases place? c with
  | none => simp
  | some name =>
      by_cases hn : name = place
      · subst hn
        cases hf : files.get? name <;> simp [OrderedTable.contains, hf]
      · cases hf : files.get? name <;>
          simp [OrderedTable.contains, hf, OrderedTable.get?_insert, hn]

/-- Records go to the end of the file that the settings name, whatever their verbosity, and to no
other. -/
theorem get?_deliver (files : Files) (c : Config) (notices : List Notice) (place : String) :
    (files.deliver (Setup.ofConfig c) notices).get? place =
      if place? c = some place then some ((files.get? place).getD [] ++ notices)
      else files.get? place := by
  rw [deliver, Setup.ofConfig_eq]
  cases h : place? c with
  | none => simp
  | some name =>
      -- with a file the log passes on every record, and the file takes it
      have hpasses : ∀ l receivers,
          (Setup.mk .debug receivers).passes (.file l) = true := fun _ _ => rfl
      simp only [Option.isSome_some, if_true, Option.toList_some, List.map_cons, List.map_nil,
        List.foldl_cons, List.foldl_nil, hpasses, OrderedTable.get?_insert, Option.some.injEq]
      split
      · next hn => rw [hn]
      · rfl

end Files

/-! ### Turns -/

/-- The records of the turns whose settings name a place. -/
def recordsFor (place : String) (turns : List Turn) : List Notice :=
  (turns.filter fun t => place? t.config = some place).flatMap Turn.records

namespace State

theorem setup_setUp (s : State) (c : Config) : (s.setUp c).setup = Setup.ofConfig c :=
  s.setup.renew_eq c

theorem get?_setUp (s : State) (c : Config) (place : String) :
    (s.setUp c).files.get? place =
      if place? c = some place then some ((s.files.get? place).getD [])
      else s.files.get? place := by
  rw [← Files.get?_prepare, ← Setup.renew_eq s.setup c]
  rfl

theorem setup_record (s : State) (notices : List Notice) :
    (s.record notices).setup = s.setup := by
  induction notices generalizing s with
  | nil => rfl
  | cons n rest ih => exact ih (s.emit n)

/-- Between two set-ups the file that is set up receives every record, each once. -/
theorem get?_record (notices : List Notice) : ∀ s : State, s.setup = Setup.ofConfig c →
    (s.record notices).files.get? place =
      if place? c = some place ∧ notices ≠ [] then
        some ((s.files.get? place).getD [] ++ notices)
      else s.files.get? place := by
  induction notices with
  | nil => exact fun s _ => by simp [record]
  | cons n rest ih =>
      intro s hs
      have hemit : (s.emit n).files.get? place =
          if place? c = some place then some ((s.files.get? place).getD [] ++ [n])
          else s.files.get? place := by
        rw [← Files.get?_deliver, ← hs]
        rfl
      refine (ih (s.emit n) hs).trans ?_
      rw [hemit]
      by_cases hp : place? c = some place <;> cases rest <;> simp [hp]

/-- A turn adds its records to the file that its settings name. -/
theorem get?_take (s : State) (t : Turn) (place : String) :
    (s.take t).files.get? place =
      if place? t.config = some place then some ((s.files.get? place).getD [] ++ t.records)
      else s.files.get? place := by
  rw [take, get?_record t.records _ (setup_setUp s t.config), get?_setUp]
  by_cases hp : place? t.config = some place
  · by_cases hr : t.records = [] <;> simp [hp, hr]
  · simp [hp]

theorem recordsFor_cons (place : String) (t : Turn) (turns : List Turn) :
    recordsFor place (t :: turns) =
      (if place? t.config = some place then t.records else []) ++ recordsFor place turns := by
  by_cases hp : place? t.config = some place <;> simp [recordsFor, hp]

/-- Turns that do not name a file have no records for it. -/
theorem recordsFor_eq_nil {turns : List Turn} (h : ¬ ∃ t ∈ turns, place? t.config = some place) :
    recordsFor place turns = [] := by
  have hnone : (turns.filter fun t => place? t.config = some place) = [] := by
    simpa [List.filter_eq_nil_iff] using h
  rw [recordsFor, hnone, List.flatMap_nil]

/-- Turns add the records of those whose settings name the file. -/
theorem get?_run (turns : List Turn) : ∀ s : State,
    (s.run turns).files.get? place =
      if ∃ t ∈ turns, place? t.config = some place then
        some ((s.files.get? place).getD [] ++ recordsFor place turns)
      else s.files.get? place := by
  induction turns with
  | nil => exact fun s => by simp [run]
  | cons t rest ih =>
      intro s
      refine (ih (s.take t)).trans ?_
      rw [get?_take, recordsFor_cons]
      by_cases hp : place? t.config = some place
      · by_cases hrest : ∃ t ∈ rest, place? t.config = some place
        · simp [hp, hrest]
        · simp [hp, hrest, recordsFor_eq_nil hrest]
      · simp [hp]

/-- **What every set-up leaves on the log, and what is in every file in the end.**  Whatever was set
up and written before: after a set-up, and until the next one, the log has one console, at the level
of the verbosity, and one file exactly if the settings name one, and nobody else; it passes on every
record if there is a file, and those of the verbosity's level otherwise.  After any turns, whether
their loads return or are refused, a file that was named holds what it held at first and then the
records of the turns that name it, in their order and each once, and no other file changes. -/
theorem records_routed (s : State) (turns : List Turn) :
    (∀ before turn,
      let c := turn.config
      let ready := (s.run before).setUp c
      let level := Level.ofVerbosity c.verbosity
      ready.setup.receivers = .console level :: (place? c).toList.map .file ∧
      ready.setup.level = (if (place? c).isSome then .debug else level) ∧
      ((place? c).isSome ↔ ∃ name, c.logFile = some name ∧ name ≠ "") ∧
      (s.run (before ++ [turn])).setup = ready.setup) ∧
    ∀ place, (s.run turns).files.get? place =
      if ∃ t ∈ turns, place? t.config = some place then
        some ((s.files.get? place).getD [] ++
          (turns.filter fun t => place? t.config = some place).flatMap Turn.records)
      else s.files.get? place := by
  refine ⟨fun before turn => ?_, fun place => get?_run turns s⟩
  have hready := setup_setUp (s.run before) turn.config
  intro c ready level
  refine ⟨?_, ?_, place?_isSome_iff c, ?_⟩
  · rw [hready, Setup.ofConfig_eq]
  · rw [hready, Setup.ofConfig_eq]
  · rw [run, List.foldl_append]
    exact setup_record _ turn.records

/-- A quiet turn, whose manifest is refused at its second entry, and a verbose one that spells the
same file in another way. -/
example :
    let quiet : Config := { verbosity := .quiet, logFile := some "shop.log" }
    let verbose : Config := { verbosity := .verbose, logFile := some "./shop.log" }
    let entries : Value := .list [.dict [("path", .text "Shop")], .dict []]
    let turns : List Turn := [⟨quiet, some (.dict [("namespaces", entries)])⟩,
      ⟨verbose, some (.dict [])⟩]
    ((State.run {} turns).files.get? "shop.log").map (List.map Notice.event) =
      some [.registered "Shop", .loaded 0] := by
  decide +kernel

end State

end DocCatalog.Log
