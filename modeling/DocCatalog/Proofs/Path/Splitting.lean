/-
**What splitting at a separator means.**

A text is cut at the first occurrence of the separator in it, what is left after that is cut at the
first occurrence in what is left, and so on.  The occurrences that are found do not overlap, and
where occurrences overlap the leftmost is found.  That is said here without a way to find them.

Main definitions:

* `Text.EndsFirst`: the separator occurs for the first time at the end of a text;
* `Text.Splits`: the pieces of a text.

Main results:

* `Text.splits_split`, `Text.Splits.eq_split`: **a text has one list of pieces, and splitting finds
  it**.
-/

import DocCatalog.Text.Split
import Mathlib.Data.List.Infix

set_option autoImplicit false

namespace DocCatalog.Text

/-- The separator occurs for the first time right after a piece. -/
def EndsFirst (sep piece : List Char) : Prop :=
  ∀ t, t <+: piece ++ sep → sep <:+: t → t = piece ++ sep

/-- The pieces of a text: one is cut off at the first occurrence of the separator as long as there
is one. -/
inductive Splits (sep : List Char) : List Char → List (List Char) → Prop where
  | last {cs : List Char} (h : ¬ sep <:+: cs) : Splits sep cs [cs]
  | cut {piece rest : List Char} {pieces : List (List Char)} (hfirst : EndsFirst sep piece)
      (h : Splits sep rest pieces) : Splits sep (piece ++ sep ++ rest) (piece :: pieces)

variable {sep piece cs rest : List Char} {c : Char} {pieces : List (List Char)}

theorem endsFirst_nil (sep : List Char) : EndsFirst sep [] := by
  intro t ht hsep
  rw [List.nil_append] at ht ⊢
  exact ht.eq_of_length (Nat.le_antisymm ht.length_le hsep.length_le)

/-- Whether a piece with one character more ends at the first occurrence. -/
theorem endsFirst_cons (hsep : sep ≠ []) :
    EndsFirst sep (c :: piece) ↔ ¬ sep <+: c :: (piece ++ sep) ∧ EndsFirst sep piece := by
  constructor
  · intro h
    constructor
    · -- the occurrence at the beginning is shorter than the whole
      intro hpre
      have hlen := congrArg List.length (h sep hpre List.infix_rfl)
      simp at hlen
      omega
    · intro t ht hinfix
      have hcons := h (c :: t) ((List.prefix_cons_inj c).2 ht) (List.infix_cons hinfix)
      exact (List.cons.inj hcons).2
  · rintro ⟨hno, hpiece⟩ t ht hinfix
    cases t with
    | nil => exact absurd (List.infix_nil.1 hinfix) hsep
    | cons d t =>
        rw [List.cons_append] at ht ⊢
        obtain ⟨rfl, hrest⟩ := List.cons_prefix_cons.1 ht
        rcases List.infix_cons_iff.1 hinfix with hpre | hinfix
        · exact absurd (hpre.trans ht) hno
        · rw [hpiece t hrest hinfix]

/-- A character goes to the first piece of what comes after it, if no occurrence begins with it. -/
theorem Splits.cons (hsep : sep ≠ []) (hno : ¬ sep <+: c :: cs) (h : Splits sep cs pieces) :
    Splits sep (c :: cs) (consFirst c pieces) := by
  cases h with
  | last h => exact .last fun hinfix => (List.infix_cons_iff.1 hinfix).elim hno h
  | @cut piece rest pieces hfirst h =>
      have hpiece : EndsFirst sep (c :: piece) := (endsFirst_cons hsep).2
        ⟨fun hpre => hno (hpre.trans (by simp [List.append_assoc])), hfirst⟩
      exact .cut hpiece h

/-- Splitting finds the pieces of a text. -/
theorem splits_split (hsep : sep ≠ []) (cs : List Char) : Splits sep cs (split sep cs) := by
  induction hn : cs.length using Nat.strongRecOn generalizing cs with
  | ind n ih =>
      subst hn
      by_cases hpre : sep <+: cs
      · obtain ⟨rest, rfl⟩ := hpre
        have hlt : rest.length < (sep ++ rest).length := by
          have := List.length_pos_iff.2 hsep
          rw [List.length_append]
          omega
        rw [split_append sep rest hsep]
        exact .cut (endsFirst_nil sep) (ih _ hlt rest rfl)
      · cases cs with
        | nil => exact .last fun hinfix => hsep (List.infix_nil.1 hinfix)
        | cons c cs =>
            rw [split_cons sep c cs hpre]
            exact .cons hsep hpre (ih _ (by simp) cs rfl)

theorem split_of_absent (h : ¬ sep <:+: cs) : split sep cs = [cs] := by
  induction cs with
  | nil => rfl
  | cons c cs ih =>
      have hpre : ¬ sep <+: c :: cs := fun hpre => h hpre.isInfix
      have hrest : ¬ sep <:+: cs := fun hinfix => h (List.infix_cons hinfix)
      rw [split_cons sep c cs hpre, ih hrest]
      rfl

theorem split_cut (hsep : sep ≠ []) (hfirst : EndsFirst sep piece) (rest : List Char) :
    split sep (piece ++ sep ++ rest) = piece :: split sep rest := by
  induction piece with
  | nil => exact split_append sep rest hsep
  | cons c piece ih =>
      obtain ⟨hno, hpiece⟩ := (endsFirst_cons hsep).1 hfirst
      -- an occurrence at the beginning would be one in the piece and the separator after it
      have hpre : ¬ sep <+: c :: (piece ++ sep ++ rest) := by
        intro hpre
        refine hno (List.prefix_of_prefix_length_le hpre ?_ (by simp; omega))
        exact (List.prefix_cons_inj c).2 (List.prefix_append _ _)
      rw [List.cons_append, List.cons_append, split_cons sep c _ hpre, ih hpiece]
      rfl

/-- The pieces of a text are those that splitting finds. -/
theorem Splits.eq_split (hsep : sep ≠ []) (h : Splits sep cs pieces) : pieces = split sep cs := by
  induction h with
  | last h => exact (split_of_absent h).symm
  | cut hfirst h ih => rw [split_cut hsep hfirst, ← ih]

/-- Where occurrences overlap the leftmost is found. -/
example : split [':', ':'] ['a', ':', ':', ':', 'b'] = [['a'], [':', 'b']] := by decide

end DocCatalog.Text
