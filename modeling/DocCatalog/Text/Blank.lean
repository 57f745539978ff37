/-
**Blank characters, and text without the blanks around it.**

Main definitions:

* `Text.isBlank`: the characters that surround a text without being part of it;
* `Text.strip`: a text without the blanks at its two ends.

Main results:

* `Text.strip_append`: blanks around a text that neither begins nor ends with one are what is
  stripped.
-/

set_option autoImplicit false

namespace DocCatalog.Text

/-- Tabs and line ends, the four information separators, the space, and the spaces and line ends
beyond ASCII; a space of no width is not blank. -/
def isBlank (c : Char) : Bool :=
  let n := c.toNat
  (0x09 ≤ n && n ≤ 0x0d) || (0x1c ≤ n && n ≤ 0x20) || n == 0x85 || n == 0xa0 || n == 0x1680
    || (0x2000 ≤ n && n ≤ 0x200a) || n == 0x2028 || n == 0x2029 || n == 0x202f || n == 0x205f
    || n == 0x3000

/-- A text without the blanks at its two ends. -/
def strip (cs : List Char) : List Char :=
  ((cs.dropWhile isBlank).reverse.dropWhile isBlank).reverse

/-- Dropping a leading run leaves what follows it, if that does not continue the run. -/
theorem dropWhile_append_of_all (p : Char → Bool) (w r : List Char) (hw : ∀ c ∈ w, p c)
    (hr : ∀ c ∈ r.head?, p c = false) : (w ++ r).dropWhile p = r := by
  induction w with
  | nil =>
      cases r with
      | nil => rfl
      | cons c r => simp [hr c (by simp)]
  | cons c w ih =>
      have hc : p c = true := hw c (by simp)
      simp only [List.cons_append, List.dropWhile_cons, hc, if_true]
      exact ih fun d hd => hw d (by simp [hd])

/-- Blanks around a text that neither begins nor ends with one are what is stripped. -/
theorem strip_append (w u v : List Char) (hw : ∀ c ∈ w, isBlank c) (hv : ∀ c ∈ v, isBlank c)
    (hhead : ∀ c ∈ u.head?, isBlank c = false) (hlast : ∀ c ∈ u.getLast?, isBlank c = false)
    (hu : u ≠ []) : strip (w ++ u ++ v) = u := by
  unfold strip
  rw [List.append_assoc, dropWhile_append_of_all isBlank w (u ++ v) hw ?_, List.reverse_append,
    dropWhile_append_of_all isBlank v.reverse u.reverse ?_ ?_, List.reverse_reverse]
  · intro c hc; exact hv c (by simpa using hc)
  · intro c hc; exact hlast c (by simpa using hc)
  · intro c hc
    cases u with
    | nil => exact absurd rfl hu
    | cons d u => exact hhead c (by simpa using hc)

end DocCatalog.Text
