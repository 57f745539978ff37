/-
**Splitting a text at a separator.**

Main definitions:

* `Text.split`: the pieces between the occurrences of a separator, which are found from left to
  right and do not overlap.

Main results:

* `Text.split_append`, `Text.split_cons`: a text that begins with the separator, and one that does
  not;
* `Text.intercalate_split`: the pieces joined by the separator are the text.
-/

set_option autoImplicit false

namespace DocCatalog.Text

/-- Puts a character before the first of some pieces. -/
def consFirst (c : Char) : List (List Char) → List (List Char)
  | [] => [[c]]
  | piece :: rest => (c :: piece) :: rest

/-- The pieces of what is left of a text when so many characters of a separator are still to be
passed over. -/
def splitFrom (sep : List Char) : Nat → List Char → List (List Char)
  | _, [] => [[]]
  | skip + 1, _ :: rest => splitFrom sep skip rest
  | 0, c :: rest =>
      if sep.isPrefixOf (c :: rest) then [] :: splitFrom sep (sep.length - 1) rest
      else consFirst c (splitFrom sep 0 rest)

/-- The pieces between the occurrences of a separator that is not empty. -/
def split (sep cs : List Char) : List (List Char) := splitFrom sep 0 cs

theorem splitFrom_eq_split_drop (sep : List Char) (skip : Nat) (cs : List Char) :
    splitFrom sep skip cs = split sep (cs.drop skip) := by
  induction cs generalizing skip with
  | nil => cases skip <;> rfl
  | cons c rest ih =>
      cases skip with
      | zero => rfl
      | succ n => simp only [splitFrom, List.drop_succ_cons, ih]

@[simp] theorem split_nil (sep : List Char) : split sep [] = [[]] := rfl

/-- A text that begins with the separator has an empty piece first. -/
theorem split_append (sep cs : List Char) (h : sep ≠ []) :
    split sep (sep ++ cs) = [] :: split sep cs := by
  cases sep with
  | nil => exact absurd rfl h
  | cons s sep =>
      have hp : (s :: sep).isPrefixOf (s :: (sep ++ cs)) = true := by
        rw [List.isPrefixOf_iff_prefix]; exact List.prefix_append (s :: sep) cs
      rw [List.cons_append, split, splitFrom, if_pos hp, splitFrom_eq_split_drop]
      simp

/-- A text that does not begin with the separator has its first character in its first piece. -/
theorem split_cons (sep : List Char) (c : Char) (cs : List Char) (h : ¬ sep <+: c :: cs) :
    split sep (c :: cs) = consFirst c (split sep cs) := by
  rw [split, splitFrom, if_neg (by simpa using h)]
  rfl

theorem split_ne_nil (sep cs : List Char) : split sep cs ≠ [] := by
  unfold split
  generalize 0 = skip
  induction cs generalizing skip with
  | nil => simp [splitFrom]
  | cons c rest ih =>
      cases skip with
      | succ n => exact ih n
      | zero =>
          rw [splitFrom]
          split
          · simp
          · cases h : splitFrom sep 0 rest <;> simp [consFirst]

/-- The pieces joined by the separator are the text. -/
theorem intercalate_split (sep cs : List Char) (h : sep ≠ []) :
    List.intercalate sep (split sep cs) = cs := by
  induction hn : cs.length using Nat.strongRecOn generalizing cs with
  | ind n ih =>
      subst hn
      by_cases hp : sep <+: cs
      · obtain ⟨rest, rfl⟩ := hp
        have hlt : rest.length < (sep ++ rest).length := by
          have := List.length_pos_iff.2 h
          rw [List.length_append]; omega
        rw [split_append sep rest h]
        have hrest := ih _ hlt rest rfl
        cases hs : split sep rest with
        | nil => exact absurd hs (split_ne_nil sep rest)
        | cons p ps =>
            rw [hs] at hrest
            simp only [List.intercalate_cons_cons, List.nil_append, hrest]
      · cases cs with
        | nil => simp
        | cons c cs =>
            rw [split_cons sep c cs hp]
            have hrest := ih _ (by simp) cs rfl
            cases hs : split sep cs with
            | nil => exact absurd hs (split_ne_nil sep cs)
            | cons p ps =>
                rw [hs] at hrest
                cases ps with
                | nil => simpa [consFirst] using hrest
                | cons q ps =>
                    simp only [consFirst, List.intercalate_cons_cons, List.cons_append] at hrest ⊢
                    rw [hrest]

end DocCatalog.Text
