/-
**Which setting a refusal is reported under, and with what value.**

Settings that are refused are reported under one that the check that failed looks at, the first word
of the text of the problem.  The value reported is the one in effect, with one exception: where no
layer gives the setting, null is reported in the place of the default.  By itself a default is never
refused, so this happens only where the separators of two settings are equal.

Main definitions:

* `Config.Problem.settings`: the settings that a check looks at;
* `Config.Problem.Fails`: that the check of a problem fails, said of the values.

Main results:

* `Config.Problem.firstWord_message`: the first word of a text is the key of the setting reported;
* `Config.Draft.fails_of_check`: a problem that is found is one of the values;
* `Config.Problem.default_passes`: a default is only refused for its equality to another separator;
* `Config.load_reports`: **what is reported of settings that are refused**.
-/

import DocCatalog.Proofs.Config.Faults

set_option autoImplicit false

namespace DocCatalog.Config

variable {d : Draft} {t : Setting} {p q : Problem} {s : Sources}

/-! ### What a check looks at -/

namespace Problem

/-- The settings that the check of a problem looks at. -/
def settings : Problem → List Setting
  | notText s _ => [s]
  | emptySeparator s => [s]
  | instanceClash => [.instanceSeparator, .namespaceSeparator, .classMethodSeparator]
  | classClash => [.classMethodSeparator, .namespaceSeparator]
  | unknownVisibility => [.defaultVisibility]
  | unknownVerbosity => [.verbosity]

theorem setting_mem_settings (p : Problem) : p.setting ∈ p.settings := by
  cases p <;> simp [setting, settings]

/-- The check of a problem fails for some settings; only a log file may be null. -/
def Fails (d : Draft) : Problem → Prop
  | notText s kind => kind = (d s).kindName ∧ (∀ t, d s ≠ .text t) ∧ (s = .logFile → d s ≠ .null)
  | emptySeparator s => d s = .text "" ∧
      s ∈ [.namespaceSeparator, .classMethodSeparator, .instanceSeparator]
  | instanceClash => d .instanceSeparator = d .namespaceSeparator ∨
      d .instanceSeparator = d .classMethodSeparator
  | classClash => d .classMethodSeparator = d .namespaceSeparator
  | unknownVisibility => ∀ v : Visibility, d .defaultVisibility ≠ .text v.word
  | unknownVerbosity => ∀ v : Verbosity, d .verbosity ≠ .text v.word

/-- The key of a setting is one word. -/
theorem blank_notMem_key (t : Setting) : ' ' ∉ t.key.toList := by
  cases t <;> decide +kernel

/-- The first word of the text of a problem is the key of the setting reported. -/
theorem firstWord_message (p : Problem) :
    String.ofList (p.message.toList.takeWhile (· ≠ ' ')) = p.setting.key := by
  have hkey : ∀ c ∈ p.setting.key.toList, decide (c ≠ ' ') = true := fun c hc =>
    decide_eq_true fun heq => blank_notMem_key p.setting (heq ▸ hc)
  rw [message, String.toList_append, String.toList_append, List.append_assoc,
    List.takeWhile_append_of_pos hkey]
  simp

/-- By itself a default passes every check, and is refused only where it is another separator. -/
theorem default_passes (h : p.Fails d) (hdefault : d p.setting = p.setting.default) :
    p = .instanceClash ∨ p = .classClash := by
  cases p with
  | instanceClash => exact .inl rfl
  | classClash => exact .inr rfl
  | notText t kind =>
      obtain ⟨-, htext, hnull⟩ := h
      rw [show d t = t.default from hdefault] at htext hnull
      cases t <;> simp [Setting.default] at htext hnull
  | emptySeparator t =>
      have hempty : d t = .text "" := h.1
      rw [show d t = t.default from hdefault] at hempty
      cases t <;> simp [Setting.default] at hempty
  | unknownVisibility => exact absurd hdefault (h .publicAccess)
  | unknownVerbosity => exact absurd hdefault (h .normal)

end Problem

/-! ### What the checks find -/

namespace Draft

theorem textOf_eq_error (h : d.textOf t = .error p) (hfile : t ≠ .logFile) : p.Fails d := by
  unfold textOf at h
  split at h
  · cases h
  · next hne =>
      obtain rfl := Except.error.inj h
      exact ⟨rfl, hne, fun heq => absurd heq hfile⟩

theorem textOrNull_eq_error (h : d.textOrNull t = .error p) : p.Fails d := by
  unfold textOrNull at h
  split at h
  · cases h
  · cases h
  · next hnull htext =>
      obtain rfl := Except.error.inj h
      exact ⟨rfl, htext, fun _ => hnull⟩

theorem require_eq_error {c : Prop} [Decidable c] (h : require c q = .error p) : ¬ c ∧ q = p := by
  by_cases hc : c
  · rw [require, dif_pos hc] at h
    cases h
  · rw [require, dif_neg hc] at h
    exact ⟨hc, Except.error.inj h⟩

theorem member_eq_error {α : Type} {members : List α} {word : α → String} {text : String}
    (hall : ∀ a, a ∈ members) (h : member members word text q = .error p) :
    (∀ a, text ≠ word a) ∧ q = p := by
  unfold member at h
  split at h
  · cases h
  · next hnone =>
      refine ⟨fun a heq => ?_, Except.error.inj h⟩
      simpa [heq] using List.find?_eq_none.1 hnone a (hall a)

/-- **A problem that the checks find is one of the values.** -/
theorem fails_of_check (h : d.check = .error p) : p.Fails d := by
  rcases bind_eq_error_iff.1 h with h | ⟨nested, hnested, h⟩
  · exact textOf_eq_error h (by decide)
  rcases bind_eq_error_iff.1 h with h | ⟨onClass, hclass, h⟩
  · exact textOf_eq_error h (by decide)
  rcases bind_eq_error_iff.1 h with h | ⟨onInstance, hinstance, h⟩
  · exact textOf_eq_error h (by decide)
  rcases bind_eq_error_iff.1 h with h | ⟨visibility, hvisibility, h⟩
  · exact textOf_eq_error h (by decide)
  rcases bind_eq_error_iff.1 h with h | ⟨verbosity, hverbosity, h⟩
  · exact textOf_eq_error h (by decide)
  rcases bind_eq_error_iff.1 h with h | ⟨logFile, -, h⟩
  · exact textOrNull_eq_error h
  rw [textOf_eq_ok_iff] at hnested hclass hinstance hvisibility hverbosity
  rcases bind_eq_error_iff.1 h with h | ⟨⟨_⟩, -, h⟩
  · obtain ⟨hempty, rfl⟩ := require_eq_error h
    exact ⟨by rw [hnested, not_not.1 hempty], by simp⟩
  rcases bind_eq_error_iff.1 h with h | ⟨⟨_⟩, -, h⟩
  · obtain ⟨hempty, rfl⟩ := require_eq_error h
    exact ⟨by rw [hclass, not_not.1 hempty], by simp⟩
  rcases bind_eq_error_iff.1 h with h | ⟨⟨_⟩, -, h⟩
  · obtain ⟨hempty, rfl⟩ := require_eq_error h
    exact ⟨by rw [hinstance, not_not.1 hempty], by simp⟩
  rcases bind_eq_error_iff.1 h with h | ⟨⟨_⟩, -, h⟩
  · obtain ⟨hclash, rfl⟩ := require_eq_error h
    rw [Problem.Fails, hinstance, hnested, hclass, Value.text.injEq, Value.text.injEq]
    tauto
  rcases bind_eq_error_iff.1 h with h | ⟨⟨_⟩, -, h⟩
  · obtain ⟨hclash, rfl⟩ := require_eq_error h
    rw [Problem.Fails, hclass, hnested, not_not.1 hclash]
  rcases bind_eq_error_iff.1 h with h | ⟨_, -, h⟩
  · obtain ⟨hword, rfl⟩ := member_eq_error Visibility.mem_all h
    intro v
    rw [hvisibility, ne_eq, Value.text.injEq]
    exact hword v
  rcases bind_eq_error_iff.1 h with h | ⟨_, -, h⟩
  · obtain ⟨hword, rfl⟩ := member_eq_error Verbosity.mem_all h
    intro v
    rw [hverbosity, ne_eq, Value.text.injEq]
    exact hword v
  · cases h

end Draft

/-! ### What is reported -/

/-- **What is reported of settings that are refused.**  If no file is at fault, no key is unknown
and the values in effect are not admissible, then a check fails for these values, and the report is
made under the key of a setting that the check looks at, with the value in effect if some layer
gives the setting.  If none does, null is reported, and the check that fails is one of two
separators for being equal. -/
theorem load_reports (hfault : s.fault? = none) (hknown : ∀ p ∈ s.pairs, isSettingKey p.1 = true)
    (hrefused : ¬ s.effective.Admissible) :
    ∃ (p : Problem) (v : Value),
      load s = .error (.refused p v) ∧
      (LoadFault.refused p v).report? = some (.invalidConfig p.setting.key v p.message) ∧
      String.ofList (p.message.toList.takeWhile (· ≠ ' ')) = p.setting.key ∧
      p.Fails s.effective ∧ p.setting ∈ p.settings ∧
      ((lastValue? s.pairs (.text p.setting.key)).isSome → v = s.effective p.setting) ∧
      (lastValue? s.pairs (.text p.setting.key) = none →
        v = .null ∧ (p = .instanceClash ∨ p = .classClash)) := by
  cases hcheck : s.effective.check with
  | ok c => exact absurd (Draft.admissible_iff.2 ⟨c, hcheck⟩) hrefused
  | error p =>
      have hload : load s = .error (.refused p
          ((lastValue? s.pairs (.text p.setting.key)).getD .null)) := by
        rw [load_of_known_pairs hfault hknown, hcheck]
      have hfails := Draft.fails_of_check hcheck
      refine ⟨p, _, hload, rfl, p.firstWord_message, hfails, p.setting_mem_settings,
        fun hsome => ?_, fun hnone => ⟨by rw [hnone]; rfl, Problem.default_passes hfails ?_⟩⟩
      · obtain ⟨w, hw⟩ := Option.isSome_iff_exists.1 hsome
        rw [Sources.effective, hw]
        rfl
      · rw [Sources.effective, hnone]
        rfl

/-- An empty separator in a sequence of pairs, above a verbosity that is replaced. -/
theorem load_reports_empty :
    let s : Sources := {
      globalName := "/home/shop/.docobjects.toml"
      global := .table [("verbosity", .int 5)]
      projectName := "/shop/docobjects.toml"
      project := .table [("docobjects", .list [.list [.text "instance_separator", .text ""]])]
      overrides := [("verbose", .bool true)] }
    s.fault? = none ∧ (∀ p ∈ s.pairs, isSettingKey p.1 = true) ∧ ¬ s.effective.Admissible ∧
      load s = .error (.refused (.emptySeparator .instanceSeparator) (.text "")) ∧
      (Problem.emptySeparator .instanceSeparator).Fails s.effective ∧
      s.effective .instanceSeparator = .text "" := by
  intro s
  have hfault : s.fault? = none := by decide +kernel
  have hknown : ∀ p ∈ s.pairs, isSettingKey p.1 = true := by decide +kernel
  have hcheck : s.effective.check = .error (.emptySeparator .instanceSeparator) := by decide +kernel
  have hrefused : ¬ s.effective.Admissible := by
    rw [Draft.admissible_iff, hcheck]
    exact nofun
  obtain ⟨p, v, hload, -, -, hfails, -, hvalue, -⟩ := load_reports hfault hknown hrefused
  have hempty : load s = .error (.refused (.emptySeparator .instanceSeparator) (.text "")) := by
    decide +kernel
  obtain ⟨rfl, rfl⟩ := LoadFault.refused.inj (Except.error.inj (hload.symm.trans hempty))
  exact ⟨hfault, hknown, hrefused, hempty, hfails, (hvalue (by decide +kernel)).symm⟩

/-- A separator of namespaces that equals the default for instance methods: null is reported where
the default is in effect. -/
theorem load_reports_null :
    let s : Sources := {
      globalName := "/home/shop/.docobjects.toml"
      projectName := "/shop/docobjects.toml"
      overrides := [("namespace_separator", .text "#")] }
    s.fault? = none ∧ (∀ p ∈ s.pairs, isSettingKey p.1 = true) ∧ ¬ s.effective.Admissible ∧
      ∃ p v, load s = .error (.refused p v) ∧ v ≠ s.effective p.setting := by
  intro s
  have hcheck : s.effective.check = .error .instanceClash := by decide +kernel
  refine ⟨by decide +kernel, by decide +kernel, ?_, .instanceClash, .null, by decide +kernel,
    by decide +kernel⟩
  rw [Draft.admissible_iff, hcheck]
  exact nofun

end DocCatalog.Config
