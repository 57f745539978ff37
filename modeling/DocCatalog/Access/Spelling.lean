/-
**How scopes and visibilities may be spelled.**

A producer writes a member of one of the sets as its parser found it: blanks around it, colons
before it and letters of either case do not count.  What is left must be the word of a member.

Main definitions:

* `Access.wordOf`: the word that a spelling comes down to;
* `Scope.ofText?`, `Visibility.ofText?`: the member that a text spells;
* `Scope.ofValue?`, `Visibility.ofValue?`: the member that a value is or spells.

Main results:

* `Scope.ofText?_eq_some_iff`, `Visibility.ofText?_eq_some_iff`: a text spells the member to whose
  word it comes down;
* `Scope.ofText?_word`, `Visibility.ofText?_word`: a word spells its member.
-/

import DocCatalog.Text.Blank
import DocCatalog.Value.Basic

set_option autoImplicit false

namespace DocCatalog

namespace Access

/-- The word that a spelling comes down to: without the blanks around it, then without the colons
before it, in lower case.  Blanks behind a colon stay.  Folding the letters of ASCII alone is right,
because no other letter has a lower-case form that occurs in the words of the two sets. -/
def wordOf (spelling : String) : String :=
  String.ofList (((Text.strip spelling.toList).dropWhile (· = ':')).map Char.toLower)

end Access

namespace Scope

/-- The scope that a text spells. -/
def ofText? (s : String) : Option Scope := all.find? fun m => m.word = Access.wordOf s

/-- The scope that a value is or spells. -/
def ofValue? : Value → Option Scope
  | .scope s => some s
  | .text s => ofText? s
  | _ => none

theorem ofText?_eq_some_iff {s : String} {m : Scope} :
    ofText? s = some m ↔ Access.wordOf s = m.word :=
  find?_word_eq_some_iff mem_all word_injective

theorem ofText?_word (m : Scope) : ofText? m.word = some m := by
  cases m <;> decide +kernel

end Scope

namespace Visibility

/-- The visibility that a text spells. -/
def ofText? (s : String) : Option Visibility := all.find? fun m => m.word = Access.wordOf s

/-- The visibility that a value is or spells. -/
def ofValue? : Value → Option Visibility
  | .visibility v => some v
  | .text s => ofText? s
  | _ => none

theorem ofText?_eq_some_iff {s : String} {w : Visibility} :
    ofText? s = some w ↔ Access.wordOf s = w.word :=
  find?_word_eq_some_iff mem_all word_injective

theorem ofText?_word (m : Visibility) : ofText? m.word = some m := by
  cases m <;> decide +kernel

end Visibility

end DocCatalog
