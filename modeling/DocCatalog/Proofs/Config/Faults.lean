/-
**How reading settings ends.**

Reading settings returns the values in effect, or ends with a fault, which is told as an error of
the configuration.  There are three ways in which a fault is not told.  Whether a file exists may be
unknown.  Since the smallest of the unknown keys is looked for, two of them may have no order: keys
need not be texts where a file has pairs in the place of a table, and numbers, texts, and moments of
each kind have orders of their own.  And a key or a value that is refused may have an integer with
too many digits to be written.

Main definitions:

* `Config.KeyOrder`, `Config.Comparable`: the orders that keys have, and two keys with an order;
* `Config.Mixed`: fields with two unknown keys that have none;
* `Config.Sources.Untold`: the faults that are not told, with what brings each of them about.

Main results:

* `Config.leastKey_of_comparable`, `Config.leastKey_of_incomparable`: the search for the smallest
  key succeeds exactly if all keys have one order;
* `Config.refuseUnknown_of_known`, `Config.refuseUnknown_of_unknown`,
  `Config.refuseUnknown_of_mixed`: what is refused for its keys;
* `Config.load_ends`: **how reading settings ends**.
-/

import DocCatalog.Proofs.Config.Gathering

set_option autoImplicit false

namespace DocCatalog.Config

variable {s : Sources} {fields : List (Value × Value)}

/-! ### Keys that have an order -/

/-- The orders of keys. -/
inductive KeyOrder where
  | byCodePoints
  | bySize
  /-- Moments of each kind have an order of their own. -/
  | byTime (kind : Moment.Kind)
  deriving DecidableEq

/-- The order that a key is in. -/
def keyOrder? : Value → Option KeyOrder
  | .text _ => some .byCodePoints
  | .bool _ | .int _ | .float _ => some .bySize
  | .moment m => some (.byTime m.kind)
  | _ => none

theorem keyOrder?_canonical (v : Value) : keyOrder? v.canonical = keyOrder? v := by
  cases v with
  | float x =>
      rw [Value.canonical, Value.canonicalFloat]
      split <;> rfl
  | _ => simp [Value.canonical, keyOrder?]

/-- Keys that are the same are in the same order. -/
theorem keyOrder?_congr {a b : Value} (h : a.agrees b = true) : keyOrder? a = keyOrder? b := by
  rw [← keyOrder?_canonical a, of_decide_eq_true h, keyOrder?_canonical]

/-- Whether two keys have an order between them. -/
def Comparable (a b : Value) : Prop := ∃ o, keyOrder? a = some o ∧ keyOrder? b = some o

theorem Comparable.symm {a b : Value} (h : Comparable a b) : Comparable b a := by
  obtain ⟨o, ha, hb⟩ := h
  exact ⟨o, hb, ha⟩

theorem Comparable.trans {a b c : Value} (h : Comparable a b) (h' : Comparable b c) :
    Comparable a c := by
  obtain ⟨o, ha, hb⟩ := h
  obtain ⟨o', hb', hc⟩ := h'
  obtain rfl : o = o' := Option.some.inj (hb.symm.trans hb')
  exact ⟨o, ha, hc⟩

theorem size?_eq_none_iff {v : Value} : size? v = none ↔ keyOrder? v ≠ some .bySize := by
  cases v with
  | float x => cases x <;> simp [size?, keyOrder?]
  | _ => simp [size?, keyOrder?]

theorem comparable_moment_iff {m n : Moment} :
    Comparable (.moment m) (.moment n) ↔ m.kind = n.kind := by
  simp [Comparable, keyOrder?, eq_comm]

/-- Two keys that are neither both texts nor both moments are compared exactly if they have
sizes. -/
theorem comparable_iff_sizes {a b : Value} (htexts : ∀ s t, a = .text s → b ≠ .text t)
    (hmoments : ∀ m n, a = .moment m → b ≠ .moment n) :
    Comparable a b ↔ keyOrder? a = some .bySize ∧ keyOrder? b = some .bySize := by
  refine ⟨?_, fun h => ⟨_, h⟩⟩
  rintro ⟨o, ha, hb⟩
  cases o with
  | bySize => exact ⟨ha, hb⟩
  | byCodePoints =>
      cases a <;> cases b <;> simp [keyOrder?] at ha hb
      exact absurd rfl (htexts _ _ rfl)
  | byTime kind =>
      cases a <;> cases b <;> simp [keyOrder?] at ha hb
      exact absurd rfl (hmoments _ _ rfl)

/-- Two keys are compared exactly if they have an order. -/
theorem keyBefore?_eq_none_iff {a b : Value} : keyBefore? a b = none ↔ ¬ Comparable a b := by
  unfold keyBefore?
  split
  · simp [Comparable, keyOrder?]
  · rw [comparable_moment_iff, Moment.before?]
    split <;> simp_all
  · next htexts hmoments =>
      have hsizes : ((size? a).bind fun x => (size? b).bind fun y => some (x.below y)) = none ↔
          keyOrder? a ≠ some .bySize ∨ keyOrder? b ≠ some .bySize := by
        rw [← size?_eq_none_iff, ← size?_eq_none_iff]
        cases size? a <;> cases size? b <;> simp
      rw [comparable_iff_sizes (fun s t ha hb => htexts s t ha hb)
        fun m n ha hb => hmoments m n ha hb, not_and_or]
      exact hsizes

/-! ### The smallest key -/

/-- Of keys in one order one is found. -/
theorem leastKey_of_comparable (rest : List (Value × Value)) : ∀ best : Value × Value,
    (∀ p ∈ rest, Comparable p.1 best.1) → ∃ p ∈ best :: rest, leastKey best rest = .ok p := by
  induction rest with
  | nil => exact fun best _ => ⟨best, List.mem_cons_self, rfl⟩
  | cons q rest ih =>
      intro best h
      have hq := h q List.mem_cons_self
      have hrest : ∀ p ∈ rest, Comparable p.1 best.1 := fun p hp => h p (List.mem_cons_of_mem _ hp)
      rw [leastKey]
      cases hbefore : keyBefore? q.1 best.1 with
      | none => exact absurd hq (keyBefore?_eq_none_iff.1 hbefore)
      | some before =>
          cases before with
          | true =>
              obtain ⟨p, hp, hleast⟩ := ih q fun p hp => (hrest p hp).trans hq.symm
              exact ⟨p, List.mem_cons_of_mem _ hp, hleast⟩
          | false =>
              obtain ⟨p, hp, hleast⟩ := ih best hrest
              refine ⟨p, ?_, hleast⟩
              rcases List.mem_cons.1 hp with rfl | hp
              · exact List.mem_cons_self
              · exact List.mem_cons_of_mem _ (List.mem_cons_of_mem _ hp)

/-- With a key beside the first that has no order with it the search comes to an end. -/
theorem leastKey_of_incomparable (rest : List (Value × Value)) : ∀ best : Value × Value,
    (∃ p ∈ rest, ¬ Comparable p.1 best.1) →
      ∃ kind other, leastKey best rest = .error (.unordered kind other) := by
  induction rest with
  | nil => exact fun _ ⟨_, hp, _⟩ => nomatch hp
  | cons q rest ih =>
      rintro best ⟨p, hp, hnot⟩
      rw [leastKey]
      cases hbefore : keyBefore? q.1 best.1 with
      | none =>
          dsimp only
          rw [unorderedKeys]
          split <;> exact ⟨_, _, rfl⟩
      | some before =>
          -- the key that goes on is in the order of the first
          have hq : Comparable q.1 best.1 := by
            by_contra hq
            simp [keyBefore?_eq_none_iff.2 hq] at hbefore
          have hp : p ∈ rest := (List.mem_cons.1 hp).resolve_left (by rintro rfl; exact hnot hq)
          cases before with
          | true => exact ih q ⟨p, hp, fun h => hnot (h.trans hq)⟩
          | false => exact ih best ⟨p, hp, hnot⟩

/-! ### Unknown keys -/

theorem isSettingKey_congr {a b : Value} (h : a.agrees b = true) :
    isSettingKey a = isSettingKey b := by
  have htext : ∀ {a b : Value}, a.agrees b = true → isSettingKey a = true → a = b := by
    intro a b h ha
    cases a with
    | text k =>
        rw [Value.agrees_comm, Value.agrees_text] at h
        exact (of_decide_eq_true h).symm
    | _ => simp [isSettingKey] at ha
  cases ha : isSettingKey a with
  | true => rw [← htext h ha, ha]
  | false =>
      cases hb : isSettingKey b with
      | false => rfl
      | true => rw [htext (Value.agrees_comm a b ▸ h) hb, ha] at hb; cases hb

/-- Two unknown keys of some fields are different and have no order between them. -/
def Mixed (fields : List (Value × Value)) : Prop :=
  ∃ p ∈ fields, ∃ q ∈ fields, isSettingKey p.1 = false ∧ isSettingKey q.1 = false ∧
    p.1.agrees q.1 = false ∧ ¬ Comparable p.1 q.1

/-- Fields without an unknown key are not refused for their keys. -/
theorem refuseUnknown_of_known (h : ∀ p ∈ fields, isSettingKey p.1 = true) :
    refuseUnknown (Merge.writeAll ∅ fields) = .ok () := by
  have hnone : ((Merge.writeAll ∅ fields).entries.filter fun p => !isSettingKey p.1) = [] := by
    refine List.filter_eq_nil_iff.2 fun p hp => ?_
    obtain ⟨⟨w, hw⟩, -⟩ := (gathers_writeAll fields).of_mem_entries hp
    simp [h _ hw]
  rw [refuseUnknown, hnone]

section Unknown

variable {p : Value × Value} {rest : List (Value × Value)}
  (hunknown : ((Merge.writeAll ∅ fields).entries.filter fun p => !isSettingKey p.1) = p :: rest)

include hunknown

/-- The unknown entries are those of unknown fields. -/
theorem mem_of_mem_unknown {q : Value × Value} (hq : q ∈ p :: rest) :
    isSettingKey q.1 = false ∧ (∃ w, (q.1, w) ∈ fields) ∧ lastValue? fields q.1 = some q.2 := by
  rw [← hunknown, List.mem_filter] at hq
  exact ⟨by simpa using hq.2, (gathers_writeAll fields).of_mem_entries hq.1⟩

/-- The unknown entries have keys in more than one order exactly if unknown fields have. -/
theorem mixed_iff : Mixed fields ↔ ∃ q ∈ rest, ¬ Comparable q.1 p.1 := by
  constructor
  · rintro ⟨q, hq, q', hq', hkey, hkey', hne, hnot⟩
    -- the entries of the two keys
    have hentry : ∀ q ∈ fields, isSettingKey q.1 = false →
        ∃ e ∈ p :: rest, e.1.agrees q.1 = true := by
      intro q hq hkey
      obtain ⟨e, he, hagrees⟩ := (gathers_writeAll fields).exists_entry hq
      rw [← hunknown]
      exact ⟨e, List.mem_filter.2 ⟨he, by simp [isSettingKey_congr hagrees, hkey]⟩, hagrees⟩
    obtain ⟨e, he, hagrees⟩ := hentry q hq hkey
    obtain ⟨e', he', hagrees'⟩ := hentry q' hq' hkey'
    have hne' : e ≠ e' := by
      rintro rfl
      rw [Value.agrees_trans (Value.agrees_comm _ _ ▸ hagrees) hagrees'] at hne
      cases hne
    have hnot' : ¬ Comparable e.1 e'.1 := by
      rwa [Comparable, keyOrder?_congr hagrees, keyOrder?_congr hagrees']
    by_contra! hall
    rcases List.mem_cons.1 he with rfl | hin <;> rcases List.mem_cons.1 he' with rfl | hin'
    · exact hne' rfl
    · exact hnot' (hall e' hin').symm
    · exact hnot' (hall e hin)
    · exact hnot' ((hall e hin).trans (hall e' hin').symm)
  · rintro ⟨q, hq, hnot⟩
    obtain ⟨hkey, ⟨w, hw⟩, -⟩ := mem_of_mem_unknown hunknown (List.mem_cons_of_mem _ hq)
    obtain ⟨hkey', ⟨w', hw'⟩, -⟩ := mem_of_mem_unknown hunknown List.mem_cons_self
    have hpairwise := (gathers_writeAll fields).pairwise_entries.filter fun p => !isSettingKey p.1
    rw [hunknown] at hpairwise
    have hne := List.rel_of_pairwise_cons hpairwise hq
    rw [Value.agrees_comm] at hne
    exact ⟨_, hw, _, hw', hkey, hkey', hne, hnot⟩

end Unknown

/-- Unknown keys without an order between them end the reading with a fault of order. -/
theorem refuseUnknown_of_mixed (h : Mixed fields) :
    ∃ kind other, refuseUnknown (Merge.writeAll ∅ fields) = .error (.unordered kind other) := by
  unfold refuseUnknown
  cases hunknown : (Merge.writeAll ∅ fields).entries.filter fun p => !isSettingKey p.1 with
  | nil =>
      obtain ⟨q, hq, -, -, hkey, -⟩ := h
      obtain ⟨e, he, hagrees⟩ := (gathers_writeAll fields).exists_entry hq
      have := List.filter_eq_nil_iff.1 hunknown e he
      simp [isSettingKey_congr hagrees, hkey] at this
  | cons p rest =>
      obtain ⟨kind, other, hleast⟩ := leastKey_of_incomparable rest p ((mixed_iff hunknown).1 h)
      exact ⟨kind, other, by simp only [hleast]; rfl⟩

/-- Unknown keys in one order are refused, and one of them is reported with its value. -/
theorem refuseUnknown_of_unknown (h : ∃ p ∈ fields, isSettingKey p.1 = false)
    (hmixed : ¬ Mixed fields) :
    ∃ key value, refuseUnknown (Merge.writeAll ∅ fields) = .error (.unknownKey key value) ∧
      isSettingKey key = false ∧ (∃ w, (key, w) ∈ fields) ∧ lastValue? fields key = some value := by
  unfold refuseUnknown
  cases hunknown : (Merge.writeAll ∅ fields).entries.filter fun p => !isSettingKey p.1 with
  | nil =>
      obtain ⟨q, hq, hkey⟩ := h
      obtain ⟨e, he, hagrees⟩ := (gathers_writeAll fields).exists_entry hq
      have := List.filter_eq_nil_iff.1 hunknown e he
      simp [isSettingKey_congr hagrees, hkey] at this
  | cons p rest =>
      rw [mixed_iff hunknown] at hmixed
      push Not at hmixed
      obtain ⟨q, hq, hleast⟩ := leastKey_of_comparable rest p hmixed
      exact ⟨q.1, q.2, by simp only [hleast]; rfl, mem_of_mem_unknown hunknown hq⟩

/-! ### How reading settings ends -/

/-- A fault that is told is an error of the configuration. -/
theorem LoadFault.configuration_of_told (fault : LoadFault) {r : Report}
    (h : fault.told? = some r) : ErrorKind.configuration ∈ r.kind.ancestry := by
  rw [told?] at h
  split at h
  · cases h
  · cases fault with
    | unreachable => cases h
    | unordered => cases h
    | _ =>
        obtain rfl := Option.some.inj h
        simp [Report.invalidConfig, ErrorKind.ancestry]

/-- Three faults are not told: that of a file of which nothing can be known, that of order, and one
with an integer that cannot be written. -/
theorem LoadFault.told?_eq_none_iff {fault : LoadFault} : fault.told? = none ↔
    (∃ name, fault = .unreachable name) ∨ (∃ className other, fault = .unordered className other) ∨
      fault.isOverlong = true := by
  rw [told?]
  cases hlong : fault.isOverlong with
  | true => simp
  | false => cases fault <;> simp [report?]

/-- The fault of a file is told, unless it is that of a file of which nothing can be known. -/
def LoadFault.IsOfFile (fault : LoadFault) : Prop :=
  fault.told?.isSome ∨ ∃ name, fault = .unreachable name

theorem FileState.isOfFile {state : FileState} {role : FileRole} {name : String}
    {fault : LoadFault} (h : state.fault? role name = some fault) : fault.IsOfFile := by
  cases state with
  | missing => cases h
  | unreachable =>
      obtain rfl := Option.some.inj h
      exact .inr ⟨name, rfl⟩
  | broken reason =>
      obtain rfl := Option.some.inj h
      exact .inl rfl
  | table fields =>
      rw [FileState.fault?] at h
      split at h
      · cases h
      · obtain rfl := Option.some.inj h
        exact .inl rfl

theorem Sources.isOfFile {fault : LoadFault} (h : s.fault? = some fault) : fault.IsOfFile := by
  rw [fault?, Option.or_eq_some_iff, Option.or_eq_some_iff] at h
  rcases h with h | ⟨-, h | ⟨-, h⟩⟩
  · exact FileState.isOfFile h
  · exact FileState.isOfFile h
  · rw [explicitFault?] at h
    split at h
    · cases h
    · obtain rfl := Option.some.inj h
      exact .inl rfl
    · exact FileState.isOfFile h

/-- Unknown keys without an order between them end the reading with a fault of order. -/
theorem load_of_mixed (h : s.fault? = none) (hmixed : Mixed s.pairs) :
    ∃ kind other, load s = .error (.unordered kind other) := by
  obtain ⟨kind, other, hrefused⟩ := refuseUnknown_of_mixed hmixed
  exact ⟨kind, other, by rw [load_of_readable h, hrefused]; rfl⟩

/-- Without unknown keys the values in effect are checked. -/
theorem load_of_known_pairs (h : s.fault? = none)
    (hknown : ∀ p ∈ s.pairs, isSettingKey p.1 = true) :
    load s = match s.effective.check with
      | .ok c => .ok c
      | .error problem =>
          .error (.refused problem
            ((lastValue? s.pairs (.text problem.setting.key)).getD .null)) := by
  rw [load_of_readable h, refuseUnknown_of_known hknown]
  rfl

/-- Where the keys have an order, one that is unknown is refused, or else the values in effect. -/
theorem refused_of_unmixed (h : s.fault? = none) (hmixed : ¬ Mixed s.pairs) {fault : LoadFault}
    (hload : load s = .error fault) :
    (∃ key value, fault = .unknownKey key value ∧ isSettingKey key = false ∧
      (∃ w, (key, w) ∈ s.pairs) ∧ lastValue? s.pairs key = some value) ∨
    ∃ problem, s.effective.check = .error problem ∧
      fault = .refused problem ((lastValue? s.pairs (.text problem.setting.key)).getD .null) := by
  by_cases hknown : ∀ p ∈ s.pairs, isSettingKey p.1 = true
  · rw [load_of_known_pairs h hknown] at hload
    cases hcheck : s.effective.check with
    | ok c => rw [hcheck] at hload; cases hload
    | error problem => exact .inr ⟨problem, rfl, by simpa [hcheck] using hload.symm⟩
  · push Not at hknown
    obtain ⟨p, hp, hkey⟩ := hknown
    obtain ⟨key, value, hrefused, hkey, hgiven, hvalue⟩ :=
      refuseUnknown_of_unknown ⟨p, hp, by simpa using hkey⟩ hmixed
    rw [load_of_readable h, hrefused] at hload
    exact .inl ⟨key, value, (Except.error.inj hload).symm, hkey, hgiven, hvalue⟩

/-- Settings that are returned have the values in effect, which pass all checks. -/
theorem effective_of_load (h : s.fault? = none) {c : Config} (hload : load s = .ok c) :
    s.effective.Admissible ∧ ∀ t, c.get t = s.effective t := by
  rw [load_of_readable h] at hload
  obtain ⟨_, -, hchecked⟩ := bind_eq_ok_iff.1 hload
  cases hcheck : s.effective.check with
  | error problem => rw [hcheck] at hchecked; cases hchecked
  | ok c' =>
      obtain rfl : c' = c := by simpa [hcheck] using hchecked
      exact ⟨Draft.admissible_iff.2 ⟨c', hcheck⟩, Draft.check_eq_ok_iff.1 hcheck⟩

/-- The faults that are not told. -/
inductive Sources.Untold (s : Sources) : LoadFault → Prop where
  /-- The first file at fault is one of which it cannot be known whether it exists. -/
  | unreachable {name : String} (first : s.fault? = some (.unreachable name)) :
      Untold s (.unreachable name)
  /-- No file is at fault, and two unknown keys have no order between them. -/
  | unordered {className other : String} (readable : s.fault? = none) (mixed : Mixed s.pairs) :
      Untold s (.unordered className other)
  /-- No file is at fault, and an unknown key that is given, or the value given last for it, has an
  integer that cannot be written. -/
  | overlongKey {key value : Value} (readable : s.fault? = none)
      (unknown : isSettingKey key = false) (given : ∃ w, (key, w) ∈ s.pairs)
      (last : lastValue? s.pairs key = some value)
      (overlong : key.isOverlong ∨ value.isOverlong) : Untold s (.unknownKey key value)
  /-- No file is at fault, and a check refuses a setting whose value, as given last, has an integer
  that cannot be written. -/
  | overlongValue {problem : Problem} {value : Value} (readable : s.fault? = none)
      (check : s.effective.check = .error problem)
      (last : lastValue? s.pairs (.text problem.setting.key) = some value)
      (overlong : value.isOverlong) : Untold s (.refused problem value)

/-- A fault with an integer that cannot be written comes from the keys or the values given. -/
theorem Sources.untold_of_isOverlong (h : s.fault? = none) (hmixed : ¬ Mixed s.pairs)
    {fault : LoadFault} (hload : load s = .error fault) (hlong : fault.isOverlong = true) :
    s.Untold fault := by
  rcases refused_of_unmixed h hmixed hload with
    ⟨key, value, rfl, hkey, hgiven, hvalue⟩ | ⟨p, hcheck, rfl⟩
  · exact .overlongKey h hkey hgiven hvalue (by simpa [LoadFault.isOverlong] using hlong)
  · cases hvalue : lastValue? s.pairs (.text p.setting.key) with
    | none => rw [hvalue] at hlong; cases hlong
    | some value =>
        rw [hvalue] at hlong
        exact .overlongValue h hcheck hvalue hlong

/-- What is not told is so for one of three reasons. -/
theorem Sources.untold_of_told?_eq_none {fault : LoadFault} (hload : load s = .error fault)
    (htold : fault.told? = none) : s.Untold fault := by
  cases hfault : s.fault? with
  | some first =>
      obtain rfl : first = fault := by simpa [load_of_fault hfault] using hload
      rcases Sources.isOfFile hfault with hsome | ⟨name, rfl⟩
      · rw [htold] at hsome
        cases hsome
      · exact .unreachable hfault
  | none =>
      by_cases hmixed : Mixed s.pairs
      · obtain ⟨className, other, hunordered⟩ := load_of_mixed hfault hmixed
        obtain rfl : LoadFault.unordered className other = fault := by
          simpa [hunordered] using hload
        exact .unordered hfault hmixed
      · rcases LoadFault.told?_eq_none_iff.1 htold with
          ⟨name, rfl⟩ | ⟨className, other, rfl⟩ | hlong
        · rcases refused_of_unmixed hfault hmixed hload with ⟨_, _, h, -⟩ | ⟨_, -, h⟩ <;> cases h
        · rcases refused_of_unmixed hfault hmixed hload with ⟨_, _, h, -⟩ | ⟨_, -, h⟩ <;> cases h
        · exact Sources.untold_of_isOverlong hfault hmixed hload hlong

theorem Sources.Untold.told?_eq_none {fault : LoadFault} (h : s.Untold fault) :
    fault.told? = none := by
  rw [LoadFault.told?_eq_none_iff]
  cases h with
  | unreachable => exact .inl ⟨_, rfl⟩
  | unordered => exact .inr (.inl ⟨_, _, rfl⟩)
  | overlongKey _ _ _ _ hlong => exact .inr (.inr (by simpa [LoadFault.isOverlong] using hlong))
  | overlongValue _ _ _ hlong => exact .inr (.inr hlong)

/-- **How reading settings ends.**  Whatever the files, the environment and the overrides hold,
settings that are returned have the values in effect, which pass all checks, and any fault is told
as an error of the configuration, but for three kinds: the first file at fault is one of which it
cannot be known whether it exists; no file is at fault and two unknown keys have no order between
them; or what is refused has an integer that cannot be written.  These are never told, and with two
unknown keys without an order reading always ends so. -/
theorem load_ends (s : Sources) :
    (∀ c, load s = .ok c → s.effective.Admissible ∧ ∀ t, c.get t = s.effective t) ∧
    (∀ fault, load s = .error fault →
      (∃ r, fault.told? = some r ∧ ErrorKind.configuration ∈ r.kind.ancestry) ∨ s.Untold fault) ∧
    (∀ fault, s.Untold fault → fault.told? = none) ∧
    (s.fault? = none → Mixed s.pairs →
      ∃ className other, load s = .error (.unordered className other)) := by
  refine ⟨fun c hload => ?_, fun fault hload => ?_, fun _ => Sources.Untold.told?_eq_none,
    load_of_mixed⟩
  · cases hfault : s.fault? with
    | none => exact effective_of_load hfault hload
    | some fault => rw [load_of_fault hfault] at hload; cases hload
  · cases htold : fault.told? with
    | some r => exact .inl ⟨r, rfl, fault.configuration_of_told htold⟩
    | none => exact .inr (Sources.untold_of_told?_eq_none hload htold)

/-- A project file whose own table is a sequence of pairs, one with a number and one with a text for
a key: neither are settings returned nor is a fault told. -/
theorem load_untold :
    let s : Sources := {
      globalName := "/home/shop/.docobjects.toml"
      projectName := "/shop/docobjects.toml"
      project := .table [("docobjects", .list [
        .list [.int 0, .text "x"], .list [.text "colour", .text "y"]])] }
    s.fault? = none ∧ ¬ ((∃ c, load s = .ok c) ∨
      ∃ fault r, load s = .error fault ∧ fault.told? = some r) := by
  intro s
  have hfault : s.fault? = none := rfl
  have hpairs : s.pairs = [(.int 0, .text "x"), (.text "colour", .text "y")] := by decide +kernel
  have hmixed : Mixed s.pairs := by
    rw [hpairs]
    exact ⟨(.int 0, .text "x"), by simp, (.text "colour", .text "y"), by simp, rfl,
      by decide +kernel, by decide +kernel, by simp [Comparable, keyOrder?]⟩
  refine ⟨hfault, ?_⟩
  obtain ⟨className, other, hload⟩ := load_of_mixed hfault hmixed
  rw [hload]
  rintro (⟨c, hc⟩ | ⟨fault, r, hfault, htold⟩)
  · cases hc
  · obtain rfl := Except.error.inj hfault
    cases htold

/-- The same with a day and time for one key and a point in time for the other, and with one unknown
key whose value has too many digits. -/
example :
    let s (project : List (String × Value)) : Sources := {
      globalName := "/home/shop/.docobjects.toml"
      projectName := "/shop/docobjects.toml"
      project := .table project }
    let pairs : Value := .list [.list [.moment (.dayTime 0), .text "x"],
      .list [.moment (.instant 0 60), .text "y"]]
    let huge : Value := .int (Nat.pow 10 Value.digitLimit)
    load (s [("docobjects", pairs)]) =
      .error (.unordered "datetime.datetime" "datetime.datetime") ∧
    load (s [("colour", huge)]) = .error (.unknownKey (.text "colour") huge) ∧
    (LoadFault.unknownKey (.text "colour") huge).told? = none := by
  decide +kernel

end DocCatalog.Config
