/-
**Which settings pass the checks.**

The checks ask three things: the separators are texts that can be told apart, the visibility and the
verbosity are words of their closed sets, and the log file is a text or null.  The settings that
come out of the checks have the values that went in.

Main definitions:

* `Config.Draft.Admissible`: what the checks ask for.

Main results:

* `Config.Draft.check_eq_ok_iff`: what comes out of the checks is what went in;
* `Config.Draft.admissible_iff`: settings pass the checks exactly if they are admissible.
-/

import DocCatalog.Config.Basic

set_option autoImplicit false

namespace DocCatalog.Config

theorem bind_eq_ok_iff {ε α β : Type} {x : Except ε α} {f : α → Except ε β} {b : β} :
    x >>= f = .ok b ↔ ∃ a, x = .ok a ∧ f a = .ok b := by
  cases x with
  | error p => exact ⟨nofun, fun ⟨_, h, _⟩ => (nomatch h)⟩
  | ok a => exact ⟨fun h => ⟨a, rfl, h⟩, fun ⟨_, ha, h⟩ => Except.ok.inj ha ▸ h⟩

theorem bind_eq_error_iff {ε α β : Type} {x : Except ε α} {f : α → Except ε β} {p : ε} :
    x >>= f = .error p ↔ x = .error p ∨ ∃ a, x = .ok a ∧ f a = .error p := by
  cases x with
  | error q => simp [bind, Except.bind]
  | ok a => simp [bind, Except.bind]

namespace Draft

variable {d : Draft} {s : Setting}

/-- What the checks ask for. -/
structure Admissible (d : Draft) : Prop where
  separators : ∃ s : Separators, s.Distinct ∧ d .namespaceSeparator = .text s.nested ∧
    d .classMethodSeparator = .text s.onClass ∧ d .instanceSeparator = .text s.onInstance
  visibility : ∃ v : Visibility, d .defaultVisibility = .text v.word
  verbosity : ∃ v : Verbosity, d .verbosity = .text v.word
  logFile : ∃ name? : Option String, d .logFile = .ofText? name?

/-! ### One check -/

theorem textOf_eq_ok_iff {t : String} : d.textOf s = .ok t ↔ d s = .text t := by
  unfold textOf
  cases d s <;> simp

theorem textOrNull_eq_ok_iff {name? : Option String} :
    d.textOrNull s = .ok name? ↔ d s = .ofText? name? := by
  unfold textOrNull
  cases d s <;> cases name? <;> simp [Value.ofText?]

theorem require_eq_ok {p : Prop} [Decidable p] (problem : Problem) (h : p) :
    require p problem = .ok ⟨h⟩ := dif_pos h

/-- The word of a closed set is that of one member. -/
theorem member_eq_ok_iff {α : Type} {members : List α} {word : α → String}
    (hall : ∀ a, a ∈ members) (hword : ∀ {a b}, word a = word b → a = b) {t : String}
    {problem : Problem} {a : α} : member members word t problem = .ok a ↔ t = word a := by
  rw [← find?_word_eq_some_iff hall hword]
  unfold member
  cases members.find? fun m => decide (word m = t) <;> simp

/-! ### All checks -/

/-- **What comes out of the checks is what went in.** -/
theorem check_eq_ok_iff {c : Config} : d.check = .ok c ↔ ∀ t, c.get t = d t := by
  constructor
  · intro h
    obtain ⟨nested, hnested, h⟩ := bind_eq_ok_iff.1 h
    obtain ⟨onClass, hclass, h⟩ := bind_eq_ok_iff.1 h
    obtain ⟨onInstance, hinstance, h⟩ := bind_eq_ok_iff.1 h
    obtain ⟨_, hvisibility, h⟩ := bind_eq_ok_iff.1 h
    obtain ⟨_, hverbosity, h⟩ := bind_eq_ok_iff.1 h
    obtain ⟨logFile, hfile, h⟩ := bind_eq_ok_iff.1 h
    obtain ⟨⟨_⟩, -, h⟩ := bind_eq_ok_iff.1 h
    obtain ⟨⟨_⟩, -, h⟩ := bind_eq_ok_iff.1 h
    obtain ⟨⟨_⟩, -, h⟩ := bind_eq_ok_iff.1 h
    obtain ⟨⟨_⟩, -, h⟩ := bind_eq_ok_iff.1 h
    obtain ⟨⟨_⟩, -, h⟩ := bind_eq_ok_iff.1 h
    obtain ⟨visibility, hv, h⟩ := bind_eq_ok_iff.1 h
    obtain ⟨verbosity, hw, h⟩ := bind_eq_ok_iff.1 h
    obtain rfl := Except.ok.inj h
    rw [member_eq_ok_iff Visibility.mem_all Visibility.word_injective] at hv
    rw [member_eq_ok_iff Verbosity.mem_all Verbosity.word_injective] at hw
    subst hv hw
    rw [textOf_eq_ok_iff] at hnested hclass hinstance hvisibility hverbosity
    rw [textOrNull_eq_ok_iff] at hfile
    intro t
    cases t <;> symm <;> assumption
  · intro h
    obtain ⟨h₁, h₂, h₃, h₄, h₅, h₆⟩ := c.distinct
    have htext : ∀ {s t}, c.get s = .text t → d.textOf s = .ok t := fun hs =>
      textOf_eq_ok_iff.2 ((h _).symm.trans hs)
    refine bind_eq_ok_iff.2 ⟨_, htext (s := .namespaceSeparator) rfl, ?_⟩
    refine bind_eq_ok_iff.2 ⟨_, htext (s := .classMethodSeparator) rfl, ?_⟩
    refine bind_eq_ok_iff.2 ⟨_, htext (s := .instanceSeparator) rfl, ?_⟩
    refine bind_eq_ok_iff.2 ⟨_, htext (s := .defaultVisibility) rfl, ?_⟩
    refine bind_eq_ok_iff.2 ⟨_, htext (s := .verbosity) rfl, ?_⟩
    refine bind_eq_ok_iff.2 ⟨_, textOrNull_eq_ok_iff.2 (h .logFile).symm, ?_⟩
    refine bind_eq_ok_iff.2 ⟨_, require_eq_ok _ h₁, ?_⟩
    refine bind_eq_ok_iff.2 ⟨_, require_eq_ok _ h₂, ?_⟩
    refine bind_eq_ok_iff.2 ⟨_, require_eq_ok _ h₃, ?_⟩
    refine bind_eq_ok_iff.2 ⟨_, require_eq_ok _ ⟨h₄, h₅⟩, ?_⟩
    refine bind_eq_ok_iff.2 ⟨_, require_eq_ok _ h₆, ?_⟩
    refine bind_eq_ok_iff.2
      ⟨_, (member_eq_ok_iff Visibility.mem_all Visibility.word_injective).2 rfl, ?_⟩
    exact bind_eq_ok_iff.2
      ⟨_, (member_eq_ok_iff Verbosity.mem_all Verbosity.word_injective).2 rfl, rfl⟩

/-- **Settings pass the checks exactly if they are admissible.** -/
theorem admissible_iff : d.Admissible ↔ ∃ c, d.check = .ok c := by
  simp only [check_eq_ok_iff]
  constructor
  · rintro ⟨⟨separators, hdistinct, hnested, hclass, hinstance⟩, ⟨visibility, hvisibility⟩,
      ⟨verbosity, hverbosity⟩, ⟨logFile, hfile⟩⟩
    refine ⟨{ separators, visibility, verbosity, logFile, distinct := hdistinct }, fun t => ?_⟩
    cases t <;> simp [Config.get, *]
  · rintro ⟨c, h⟩
    exact {
      separators := ⟨c.separators, c.distinct, (h .namespaceSeparator).symm,
        (h .classMethodSeparator).symm, (h .instanceSeparator).symm⟩
      visibility := ⟨c.visibility, (h .defaultVisibility).symm⟩
      verbosity := ⟨c.verbosity, (h .verbosity).symm⟩
      logFile := ⟨c.logFile, (h .logFile).symm⟩ }

end Draft

end DocCatalog.Config
