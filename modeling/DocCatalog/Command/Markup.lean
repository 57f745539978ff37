/-
**Style marks in text for a terminal.**

A piece of text between brackets that begins with a small letter is a style mark, and is not shown.

Main definitions:

* `Markup.shown`: a text without its style marks.
-/

set_option autoImplicit false

namespace DocCatalog.Markup

/-- The characters of a mark up to its closing bracket, behind its opening one, with the rest of the
text.  A mark holds no opening bracket. -/
def closeMark? : List Char → Option (List Char)
  | [] => none
  | ']' :: rest => some rest
  | '[' :: _ => none
  | _ :: rest => closeMark? rest

theorem length_closeMark? {cs rest : List Char} (h : closeMark? cs = some rest) :
    rest.length < cs.length := by
  induction cs with
  | nil => simp [closeMark?] at h
  | cons c cs ih =>
      unfold closeMark? at h
      split at h
      · simp at h
      · next heq =>
          injection heq with _ h₂
          injection h with h
          subst h; subst h₂
          simp
      · simp at h
      · next heq =>
          injection heq with _ h₂
          subst h₂
          have := ih h
          simp only [List.length_cons]; omega

/-- The rest of a text behind the mark at its head, if it begins with one. -/
def skipMark? : List Char → Option (List Char)
  | '[' :: c :: rest => if 'a' ≤ c ∧ c ≤ 'z' then closeMark? rest else none
  | _ => none

theorem length_skipMark? {cs rest : List Char} (h : skipMark? cs = some rest) :
    rest.length < cs.length := by
  unfold skipMark? at h
  split at h
  · split at h
    · have := length_closeMark? h
      simp only [List.length_cons]; omega
    · simp at h
  · simp at h

/-- Characters without the style marks among them. -/
def shownChars (cs : List Char) : List Char :=
  match h : skipMark? cs with
  | some rest =>
      have := length_skipMark? h
      shownChars rest
  | none =>
      match cs with
      | [] => []
      | c :: rest => c :: shownChars rest
termination_by cs.length

/-- A text without its style marks. -/
def shown (s : String) : String := String.ofList (shownChars s.toList)

end DocCatalog.Markup
