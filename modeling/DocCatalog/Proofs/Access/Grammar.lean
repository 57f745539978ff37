/-
**How a word of a closed set may be spelled, as a grammar.**

A spelling of a word is, in this order, blanks, colons, the word in letters of either case, and
blanks.  What a text comes down to is found in three passes: the blanks at both ends are stripped
first, then the colons are dropped, and the letters are folded last.  So a blank behind a colon stays
where it is, as does a colon behind the word, and the passes accept exactly the grammar.

Main definitions:

* `Access.SameLetter`: one letter of ASCII in either case;
* `Access.IsSpelling`: the grammar;
* `Access.Lowered`: what is known of a text in lower case if letters beyond ASCII are folded too.

Main results:

* `Access.wordOf_eq_iff`: **a text comes down to a word exactly if it is a spelling of it**;
* `Access.IsSpelling.letters`, `Access.IsSpelling.isChain`: what a spelling does not have in it;
* `Access.Lowered.eq_iff`: it makes no difference whether letters beyond ASCII are folded.
-/

import DocCatalog.Access.Spelling
import Mathlib.Data.List.Chain
import Mathlib.Data.List.DropRight
import Mathlib.Data.List.Forall2

set_option autoImplicit false

namespace DocCatalog

/-- What is stripped from a text are blanks. -/
theorem Text.exists_around_strip (cs : List Char) : ∃ before after : List Char,
    (∀ c ∈ before, isBlank c = true) ∧ (∀ c ∈ after, isBlank c = true) ∧
      cs = before ++ strip cs ++ after := by
  refine ⟨cs.takeWhile isBlank, (cs.dropWhile isBlank).rtakeWhile isBlank,
    fun c hc => List.mem_takeWhile_imp hc, fun c hc => List.mem_rtakeWhile_imp hc, ?_⟩
  have hstrip : strip cs = (cs.dropWhile isBlank).rdropWhile isBlank := rfl
  rw [hstrip, List.append_assoc, List.rdropWhile_append_rtakeWhile,
    List.takeWhile_append_dropWhile]

namespace Access

open Text (isBlank strip)

variable {s word word' : String} {a b c : Char} {cs us ws : List Char}

/-! ### Letters of either case -/

theorem isUpper_iff : c.isUpper = true ↔ 65 ≤ c.toNat ∧ c.toNat ≤ 90 :=
  decide_eq_true_iff.trans (and_congr UInt32.le_iff_toNat_le UInt32.le_iff_toNat_le)

theorem isLower_iff : c.isLower = true ↔ 97 ≤ c.toNat ∧ c.toNat ≤ 122 :=
  Bool.and_eq_true_iff.trans (and_congr
    (decide_eq_true_iff.trans UInt32.le_iff_toNat_le)
    (decide_eq_true_iff.trans UInt32.le_iff_toNat_le))

/-- A capital letter of ASCII stands 32 places before the small one. -/
theorem toNat_toLower (c : Char) :
    c.toLower.toNat = if 65 ≤ c.toNat ∧ c.toNat ≤ 90 then c.toNat + 32 else c.toNat := by
  have hiff : (c.val ≥ 'A'.val ∧ c.val ≤ 'Z'.val) ↔ 65 ≤ c.toNat ∧ c.toNat ≤ 90 := by
    simp [UInt32.le_iff_toNat_le]
  unfold Char.toLower
  by_cases h : c.val ≥ 'A'.val ∧ c.val ≤ 'Z'.val
  · have hle : c.val.toNat ≤ 90 := (hiff.1 h).2
    have hadd : (c.val + 32).toNat = c.val.toNat + 32 := by
      rw [UInt32.toNat_add]
      exact Nat.mod_eq_of_lt (by simp only [UInt32.reduceToNat]; omega)
    rw [dif_pos h, if_pos (hiff.1 h)]
    exact hadd
  · rw [dif_neg h, if_neg (mt hiff.2 h)]

theorem toLower_of_isLower (h : c.isLower = true) : c.toLower = c := by
  rw [isLower_iff] at h
  rw [← Char.toNat_inj, toNat_toLower, if_neg (by omega)]

/-- The capital and the small form of one letter of ASCII. -/
def IsCasePair (capital small : Char) : Prop :=
  capital.isUpper = true ∧ small.toNat = capital.toNat + 32

/-- One character, or the two forms of one letter of ASCII. -/
def SameLetter (a b : Char) : Prop := a = b ∨ IsCasePair a b ∨ IsCasePair b a

theorem sameLetter_iff : SameLetter a b ↔ a.toLower = b.toLower := by
  simp only [SameLetter, IsCasePair, isUpper_iff, ← Char.toNat_inj, toNat_toLower]
  split <;> split <;> omega

/-- The letters of a text in small letters are those that are folded to them. -/
theorem forall₂_sameLetter_iff (hw : ∀ c ∈ ws, c.isLower = true) :
    List.Forall₂ SameLetter us ws ↔ us.map Char.toLower = ws := by
  induction us generalizing ws with
  | nil => cases ws <;> simp
  | cons u us ih =>
      cases ws with
      | nil => simp
      | cons w ws =>
          have hfirst : w.toLower = w := toLower_of_isLower (hw w (by simp))
          have hrest := ih fun c hc => hw c (List.mem_cons_of_mem w hc)
          rw [List.forall₂_cons, sameLetter_iff, hfirst, hrest, List.map_cons, List.cons.injEq]

/-- A letter of ASCII is neither a blank nor a colon. -/
theorem not_isBlank_of_isLower (h : c.toLower.isLower = true) : isBlank c = false ∧ c ≠ ':' := by
  rw [isLower_iff, toNat_toLower] at h
  constructor
  · simp only [isBlank, Bool.or_eq_false_iff, Bool.and_eq_false_iff, decide_eq_false_iff_not,
      beq_eq_false_iff_ne]
    split at h <;> omega
  · rintro rfl
    revert h
    decide

/-! ### The grammar -/

/-- A word in small letters of ASCII. -/
structure IsWord (word : String) : Prop where
  ne_nil : word.toList ≠ []
  isLower : ∀ c ∈ word.toList, c.isLower = true

/-- **A spelling of a word:** blanks, colons, the word in letters of either case, and blanks. -/
def IsSpelling (s word : String) : Prop :=
  ∃ (before letters after : List Char) (colons : ℕ),
    (∀ c ∈ before, isBlank c = true) ∧ (∀ c ∈ after, isBlank c = true) ∧
      List.Forall₂ SameLetter letters word.toList ∧
      s.toList = before ++ List.replicate colons ':' ++ letters ++ after

/-- The parts of a spelling: the letters, of which there are some, are neither blanks nor colons. -/
theorem IsSpelling.parts (hw : IsWord word) (h : IsSpelling s word) :
    ∃ (before letters after : List Char) (colons : ℕ),
      (∀ c ∈ before, isBlank c = true) ∧ (∀ c ∈ after, isBlank c = true) ∧
        letters.map Char.toLower = word.toList ∧ letters ≠ [] ∧
        (∀ c ∈ letters, isBlank c = false ∧ c ≠ ':') ∧
        s.toList = before ++ (List.replicate colons ':' ++ letters) ++ after := by
  obtain ⟨before, letters, after, colons, hbefore, hafter, hletters, hs⟩ := h
  rw [forall₂_sameLetter_iff hw.isLower] at hletters
  refine ⟨before, letters, after, colons, hbefore, hafter, hletters, ?_, ?_, ?_⟩
  · rintro rfl
    exact hw.ne_nil hletters.symm
  · intro c hc
    exact not_isBlank_of_isLower (hw.isLower _ (hletters ▸ List.mem_map_of_mem hc))
  · rw [hs, List.append_assoc before]

/-- **A text comes down to a word exactly if it is a spelling of it.** -/
theorem wordOf_eq_iff (hw : IsWord word) : wordOf s = word ↔ IsSpelling s word := by
  constructor
  · intro h
    obtain ⟨before, after, hbefore, hafter, hs⟩ := Text.exists_around_strip s.toList
    have hcolons : (strip s.toList).takeWhile (· = ':') = List.replicate _ ':' :=
      List.eq_replicate_iff.2 ⟨rfl, fun c hc => by simpa using List.mem_takeWhile_imp hc⟩
    have hcut := List.takeWhile_append_dropWhile (p := (· = ':')) (l := strip s.toList)
    rw [hcolons] at hcut
    refine ⟨before, _, after, _, hbefore, hafter, ?_, by rwa [List.append_assoc before, hcut]⟩
    rw [forall₂_sameLetter_iff hw.isLower, ← h, wordOf, String.toList_ofList]
  · intro h
    obtain ⟨before, letters, after, colons, hbefore, hafter, hletters, hne, hplain, hs⟩ :=
      h.parts hw
    have hkept : ∀ c ∈ List.replicate colons ':' ++ letters, isBlank c = false := by
      intro c hc
      rcases List.mem_append.1 hc with hc | hc
      · rw [List.eq_of_mem_replicate hc]
        rfl
      · exact (hplain c hc).1
    have hstrip : strip s.toList = List.replicate colons ':' ++ letters := by
      rw [hs]
      exact Text.strip_append before _ after hbefore hafter
        (fun c hc => hkept c (List.mem_of_mem_head? hc))
        (fun c hc => hkept c (List.mem_of_getLast? hc)) (by simp [hne])
    have hdrop : (List.replicate colons ':' ++ letters).dropWhile (· = ':') = letters :=
      Text.dropWhile_append_of_all _ _ letters (fun c hc => by simp [List.eq_of_mem_replicate hc])
        fun c hc => by simpa using (hplain c (List.mem_of_mem_head? hc)).2
    rw [wordOf, hstrip, hdrop, hletters, String.ofList_toList]

/-- Blanks of any kind are stripped, but not behind a colon, and letters are those of ASCII. -/
example : Scope.ofText? "\u3000::InStance\x1f" = some .onInstance ∧ Scope.ofText? ": class" = none ∧
    Scope.ofText? "class:" = none ∧ Scope.ofText? "cla\u017f\u017f" = none ∧
    Scope.ofText? "public" = none := by
  decide +kernel

/-- A text is a spelling of one word only. -/
theorem IsSpelling.unique (hw : IsWord word) (hw' : IsWord word') (h : IsSpelling s word)
    (h' : IsSpelling s word') : word = word' :=
  ((wordOf_eq_iff hw).2 h).symm.trans ((wordOf_eq_iff hw').2 h')

/-- The characters that may stand around a word. -/
def isAround (c : Char) : Bool := isBlank c || c == ':'

/-- What stands in a spelling besides blanks and colons is the word, and nothing else. -/
theorem IsSpelling.letters (hw : IsWord word) (h : IsSpelling s word) :
    List.Forall₂ SameLetter (s.toList.filter (!isAround ·)) word.toList := by
  obtain ⟨before, letters, after, colons, hbefore, hafter, hletters, -, hplain, hs⟩ := h.parts hw
  have haround : ∀ cs : List Char, (∀ c ∈ cs, isAround c = true) →
      cs.filter (!isAround ·) = [] := fun cs hcs =>
    List.filter_eq_nil_iff.2 fun c hc => by simp [hcs c hc]
  have hkept : letters.filter (!isAround ·) = letters :=
    List.filter_eq_self.2 fun c hc => by simp [isAround, hplain c hc]
  rw [hs, List.filter_append, List.filter_append, List.filter_append, hkept,
    haround before fun c hc => by simp [isAround, hbefore c hc],
    haround after fun c hc => by simp [isAround, hafter c hc],
    haround _ fun c hc => by simp [isAround, List.eq_of_mem_replicate hc]]
  simpa using (forall₂_sameLetter_iff hw.isLower).2 hletters

/-- No blank stands right behind a colon in a spelling. -/
theorem IsSpelling.isChain (hw : IsWord word) (h : IsSpelling s word) :
    s.toList.IsChain fun a b => a = ':' → isBlank b = false := by
  obtain ⟨before, letters, after, colons, hbefore, hafter, -, hne, hplain, hs⟩ := h.parts hw
  -- nothing is asked where there is no colon
  have hnone : ∀ cs : List Char, (∀ c ∈ cs, c ≠ ':') →
      cs.IsChain fun a b => a = ':' → isBlank b = false := fun cs hcs =>
    (List.pairwise_of_forall_mem_list fun a ha _ _ heq => absurd heq (hcs a ha)).isChain
  have hcolon : ∀ c, isBlank c = true → c ≠ ':' := by
    rintro c hc rfl
    cases hc
  rw [hs, List.append_assoc, List.append_assoc]
  refine List.isChain_append.2 ⟨hnone before fun c hc => hcolon c (hbefore c hc), ?_, ?_⟩
  · refine List.isChain_append.2
      ⟨List.isChain_replicate_of_rel _ fun _ => rfl, hnone (letters ++ after) ?_, ?_⟩
    · intro c hc
      rcases List.mem_append.1 hc with hc | hc
      · exact (hplain c hc).2
      · exact hcolon c (hafter c hc)
    · -- behind the last colon comes the first letter
      intro _ _ c hc _
      rw [List.head?_append_of_ne_nil _ hne] at hc
      exact (hplain c (List.mem_of_mem_head? hc)).1
  · intro c hc _ _ heq
    exact absurd heq (hcolon c (hbefore c (List.mem_of_getLast? hc)))

/-! ### Letters beyond ASCII -/

/-- What is known of the form that a character has in lower case.  In ASCII it is the small letter;
beyond, it has a character beyond ASCII, but for the sign of the kelvin. -/
inductive LowerForm : Char → List Char → Prop where
  | ascii {c : Char} (h : c.toNat < 128) : LowerForm c [c.toLower]
  | beyond {c d : Char} {form : List Char} (hc : 128 ≤ c.toNat) (hmem : d ∈ form)
      (hd : 128 ≤ d.toNat) : LowerForm c form
  | kelvin : LowerForm '\u212a' ['k']

/-- A text and what it may be in lower case: each character in its form. -/
def Lowered (cs lowered : List Char) : Prop :=
  ∃ forms, List.Forall₂ LowerForm cs forms ∧ lowered = forms.flatten

theorem toLower_of_le (h : 128 ≤ c.toNat) : c.toLower = c := by
  rw [← Char.toNat_inj, toNat_toLower, if_neg (by omega)]

/-- **It makes no difference whether letters beyond ASCII are folded**, as long as the word has
no `k`. -/
theorem Lowered.eq_iff {lowered : List Char} (h : Lowered cs lowered)
    (hw : ∀ c ∈ ws, c.isLower = true ∧ c ≠ 'k') : lowered = ws ↔ cs.map Char.toLower = ws := by
  obtain ⟨forms, hforms, rfl⟩ := h
  have hascii : ∀ c ∈ ws, ¬ 128 ≤ c.toNat := by
    intro c hc hle
    have hlower := isLower_iff.1 (hw c hc).1
    omega
  induction hforms generalizing ws with
  | nil => simp
  | @cons c form cs forms hform _ ih =>
      rw [List.flatten_cons, List.map_cons]
      -- neither side is a word if it has a character that the word has not
      have hbeyond : 128 ≤ c.toNat → (∃ d ∈ form, d ∉ ws) →
          (form ++ forms.flatten = ws ↔ c.toLower :: cs.map Char.toLower = ws) := by
        rintro hc ⟨d, hmem, hd⟩
        refine iff_of_false ?_ ?_
        · rintro rfl
          exact hd (List.mem_append_left _ hmem)
        · rintro rfl
          rw [toLower_of_le hc] at hascii
          exact hascii c (by simp) hc
      cases hform with
      | ascii =>
          cases ws with
          | nil => simp
          | cons w ws =>
              have hrest : forms.flatten = ws ↔ cs.map Char.toLower = ws :=
                ih (fun c hc => hw c (by simp [hc])) fun c hc => hascii c (by simp [hc])
              rw [List.singleton_append, List.cons.injEq, List.cons.injEq, hrest]
      | @beyond _ d _ hc hmem hd => exact hbeyond hc ⟨d, hmem, fun hd' => hascii d hd' hd⟩
      | kelvin => exact hbeyond (by decide) ⟨'k', by simp, fun hk => (hw 'k' hk).2 rfl⟩

end Access

end DocCatalog
