/-
**Reading JSON text.**

Objects keep the order of their fields; of two fields with one key the later value stays, in the
place of the earlier.  A number without a point and without an exponent is an integer of any size up
to a fixed number of digits, and arrays and objects stand one inside the other up to a depth that
the reader is given.  The words for not-a-number and the infinities are read too.

What is read is a term, whose texts are sequences of code points: an escape may write half of a
surrogate pair, and a half that stands alone is kept as it is.  It is no character, so a term with
such a text has no value.

Main definitions:

* `Json.Problem`: why a text is refused;
* `Json.Term`: what is read;
* `Json.scanText`, `Json.scanNumber`, `Json.scanTerm`: what stands at the head of a text, with the
  rest of the text;
* `Json.parse`: the term of a whole text;
* `Json.Term.value?`: the value of a term;
* `Json.Term.IsWhole`: that no half stands alone in the texts of a term.

Main results:

* `Json.Term.isSome_value?_iff`: a term has a value exactly if no half stands alone in its texts.

Of two calls of the readers of terms one inside the other at least one consumes a character, so a
reader with twice as much fuel as the text is long, and two more, never runs out.
-/

import DocCatalog.OrderedTable
import DocCatalog.Value.Basic

set_option autoImplicit false

namespace DocCatalog.Json

/-- Why a text is refused. -/
inductive Problem where
  | malformed
  /-- An integer has more digits than are read. -/
  | hugeInteger
  /-- More arrays and objects stand one inside the other than the reader has room for. -/
  | tooDeep
  deriving DecidableEq, Repr

/-- What is read.  Its texts are sequences of code points. -/
inductive Term where
  /-- A null, a truth value or a number. -/
  | plain (v : Value)
  | text (points : List Nat)
  | list (items : List Term)
  | dict (fields : List (List Nat × Term))

/-- The characters that may stand between the parts of a text. -/
def isSpace (c : Char) : Bool := c = ' ' || c = '\t' || c = '\n' || c = '\r'

/-- A text without the space before it. -/
def skipSpace (cs : List Char) : List Char := cs.dropWhile isSpace

/-! ### Texts -/

/-- The value of a hexadecimal digit. -/
def hexDigit? (c : Char) : Option Nat :=
  if '0' ≤ c ∧ c ≤ '9' then some (c.toNat - '0'.toNat)
  else if 'a' ≤ c ∧ c ≤ 'f' then some (c.toNat - 'a'.toNat + 10)
  else if 'A' ≤ c ∧ c ≤ 'F' then some (c.toNat - 'A'.toNat + 10)
  else none

/-- The number of four hexadecimal digits. -/
def hexNumber? (a b c d : Char) : Option Nat := do
  return (((← hexDigit? a) * 16 + (← hexDigit? b)) * 16 + (← hexDigit? c)) * 16 + (← hexDigit? d)

/-- The character that a backslash and a letter stand for. -/
def escaped? (c : Char) : Option Char :=
  if c = '"' ∨ c = '\\' ∨ c = '/' then some c
  else if c = 'b' then some (Char.ofNat 8)
  else if c = 'f' then some (Char.ofNat 12)
  else if c = 'n' then some '\n'
  else if c = 'r' then some '\r'
  else if c = 't' then some '\t'
  else none

/-- The code units of a text up to its closing quote, with the rest.  Control characters must be
escaped. -/
def scanUnits : List Char → Except Problem (List Nat × List Char)
  | [] => .error .malformed
  | '"' :: rest => .ok ([], rest)
  | '\\' :: 'u' :: a :: b :: c :: d :: rest =>
      match hexNumber? a b c d with
      | some n => (scanUnits rest).map fun p => (n :: p.1, p.2)
      | none => .error .malformed
  | '\\' :: c :: rest =>
      match escaped? c with
      | some e => (scanUnits rest).map fun p => (e.toNat :: p.1, p.2)
      | none => .error .malformed
  | c :: rest =>
      if c.toNat < 0x20 ∨ c = '\\' then .error .malformed
      else (scanUnits rest).map fun p => (c.toNat :: p.1, p.2)

/-- Code units as code points: the two halves of a pair are one, and a half that stands alone
stays. -/
def pointsOf : List Nat → List Nat
  | [] => []
  | [n] => [n]
  | m :: n :: rest =>
      if 0xd800 ≤ m ∧ m < 0xdc00 ∧ 0xdc00 ≤ n ∧ n < 0xe000 then
        (0x10000 + (m - 0xd800) * 0x400 + (n - 0xdc00)) :: pointsOf rest
      else m :: pointsOf (n :: rest)

/-- The code points of a text, behind its opening quote. -/
def scanText (cs : List Char) : Except Problem (List Nat × List Char) :=
  (scanUnits cs).map fun p => (pointsOf p.1, p.2)

/-- Code points that are all characters, none being half of a pair. -/
def AreCharacters (points : List Nat) : Prop := ∀ n ∈ points, n.isValidChar

instance (points : List Nat) : Decidable (AreCharacters points) :=
  inferInstanceAs (Decidable (∀ n ∈ points, n.isValidChar))

/-- The text of some code points, if they are characters. -/
def textOf? (points : List Nat) : Option String :=
  if AreCharacters points then some (String.ofList (points.map Char.ofNat)) else none

theorem isSome_textOf?_iff {points : List Nat} :
    (textOf? points).isSome ↔ AreCharacters points := by
  simp [textOf?]

/-! ### Numbers -/

/-- The number of a run of digits. -/
def natOf (digits : List Char) : Nat := digits.foldl (fun n c => 10 * n + (c.toNat - '0'.toNat)) 0

/-- The leading digits, with the rest. -/
def scanDigits (cs : List Char) : List Char × List Char := cs.span Char.isDigit

/-- The digits behind a point, if there is one with digits behind it. -/
def scanFraction (cs : List Char) : List Char × List Char :=
  match cs with
  | '.' :: rest => if (scanDigits rest).1 = [] then ([], cs) else scanDigits rest
  | _ => ([], cs)

/-- The exponent, if there is one with digits. -/
def scanExponent (cs : List Char) : Option Int × List Char :=
  let digits (negative : Bool) (rest : List Char) : Option Int × List Char :=
    match scanDigits rest with
    | ([], _) => (none, cs)
    | (ds, rest) => (some (if negative then -(natOf ds : Int) else natOf ds), rest)
  match cs with
  | c :: '-' :: rest => if c = 'e' ∨ c = 'E' then digits true rest else (none, cs)
  | c :: '+' :: rest => if c = 'e' ∨ c = 'E' then digits false rest else (none, cs)
  | c :: rest => if c = 'e' ∨ c = 'E' then digits false rest else (none, cs)
  | [] => (none, cs)

/-- The whole part of a number: a single zero, or digits that begin with another one. -/
def scanWhole (cs : List Char) : Option (List Char × List Char) :=
  match cs with
  | '0' :: rest => some (['0'], rest)
  | _ =>
      match scanDigits cs with
      | ([], _) => none
      | (ds, rest) => some (ds, rest)

/-- A number, behind its sign. -/
def scanNumber (negative : Bool) (cs : List Char) : Except Problem (Value × List Char) :=
  match scanWhole cs with
  | none => .error .malformed
  | some (whole, rest) =>
      let (fraction, rest) := scanFraction rest
      let (exponent?, rest) := scanExponent rest
      match fraction, exponent? with
      | [], none =>
          if Value.digitLimit < whole.length then .error .hugeInteger
          else
            let n : Int := natOf whole
            .ok (.int (if negative then -n else n), rest)
      | _, _ =>
          let digits := natOf (whole ++ fraction)
          let power := exponent?.getD 0 - fraction.length
          .ok (.float (.ofDecimal negative digits power), rest)

/-! ### Terms -/

/-- The words that stand for values. -/
def words : List (List Char × Value) :=
  [ ("null".toList, .null), ("true".toList, .bool true), ("false".toList, .bool false),
    ("NaN".toList, .float .nan), ("Infinity".toList, .float (.infinity false)),
    ("-Infinity".toList, .float (.infinity true)) ]

/-- The value of the word at the head of a text. -/
def scanWord? (cs : List Char) : Option (Value × List Char) :=
  (words.find? fun w => w.1.isPrefixOf cs).map fun w => (w.2, cs.drop w.1.length)

/-- Fields with each key once: the later term, in the earlier place. -/
def distinctFields (fields : List (List Nat × Term)) : List (List Nat × Term) :=
  (OrderedTable.ofList fields).toList

mutual

/-- The term at the head of a text, with so many arrays and objects allowed one inside the other. -/
def scanTerm : Nat → Nat → List Char → Except Problem (Term × List Char)
  | 0, _, _ => .error .malformed
  | fuel + 1, depth, cs =>
      match scanWord? cs with
      | some (v, rest) => .ok (.plain v, rest)
      | none =>
          match cs, depth with
          | '"' :: rest, _ => (scanText rest).map fun p => (.text p.1, p.2)
          | '[' :: _, 0 => .error .tooDeep
          | '[' :: rest, depth + 1 =>
              match skipSpace rest with
              | ']' :: rest => .ok (.list [], rest)
              | rest => (scanItems fuel depth rest).map fun p => (.list p.1, p.2)
          | '\x7b' :: _, 0 => .error .tooDeep
          | '\x7b' :: rest, depth + 1 =>
              match skipSpace rest with
              | '\x7d' :: rest => .ok (.dict [], rest)
              | rest => (scanFields fuel depth rest).map fun p => (.dict (distinctFields p.1), p.2)
          | '-' :: rest, _ => (scanNumber true rest).map fun p => (.plain p.1, p.2)
          | _, _ => (scanNumber false cs).map fun p => (.plain p.1, p.2)

/-- Items up to the closing bracket, at least one. -/
def scanItems : Nat → Nat → List Char → Except Problem (List Term × List Char)
  | 0, _, _ => .error .malformed
  | fuel + 1, depth, cs => do
      let (item, rest) ← scanTerm fuel depth cs
      match skipSpace rest with
      | ']' :: rest => return ([item], rest)
      | ',' :: rest =>
          let (items, rest) ← scanItems fuel depth (skipSpace rest)
          return (item :: items, rest)
      | _ => throw .malformed

/-- Fields up to the closing brace, at least one. -/
def scanFields : Nat → Nat → List Char → Except Problem (List (List Nat × Term) × List Char)
  | 0, _, _ => .error .malformed
  | fuel + 1, depth, cs => do
      match cs with
      | '"' :: rest =>
          let (key, rest) ← scanText rest
          match skipSpace rest with
          | ':' :: rest =>
              let (term, rest) ← scanTerm fuel depth (skipSpace rest)
              match skipSpace rest with
              | '\x7d' :: rest => return ([(key, term)], rest)
              | ',' :: rest =>
                  let (fields, rest) ← scanFields fuel depth (skipSpace rest)
                  return ((key, term) :: fields, rest)
              | _ => throw .malformed
          | _ => throw .malformed
      | _ => throw .malformed

end

/-- The term of a whole text, with so many arrays and objects allowed one inside the other. -/
def parse (depth : Nat) (text : String) : Except Problem Term := do
  let cs := text.toList
  let (term, rest) ← scanTerm (2 * cs.length + 2) depth (skipSpace cs)
  if skipSpace rest = [] then return term else throw .malformed

/-! ### Values -/

namespace Term

mutual

/-- The value of a term, if all its texts consist of characters. -/
def value? : Term → Option Value
  | plain v => some v
  | text points => (textOf? points).map Value.text
  | list items => (values? items).map Value.list
  | dict fields => (fieldValues? fields).map Value.dict

def values? : List Term → Option (List Value)
  | [] => some []
  | t :: rest => do return (← value? t) :: (← values? rest)

def fieldValues? : List (List Nat × Term) → Option (List (String × Value))
  | [] => some []
  | (key, t) :: rest => do return (← textOf? key, ← value? t) :: (← fieldValues? rest)

end

mutual

/-- The texts of a term, keys included. -/
def texts : Term → List (List Nat)
  | plain _ => []
  | text points => [points]
  | list items => itemTexts items
  | dict fields => fieldTexts fields

def itemTexts : List Term → List (List Nat)
  | [] => []
  | t :: rest => texts t ++ itemTexts rest

def fieldTexts : List (List Nat × Term) → List (List Nat)
  | [] => []
  | (key, t) :: rest => key :: texts t ++ fieldTexts rest

end

/-- No half of a pair stands alone in a term. -/
def IsWhole (t : Term) : Prop := ∀ points ∈ t.texts, AreCharacters points

mutual

/-- A term has a value exactly if no half of a pair stands alone in it. -/
theorem isSome_value?_iff : ∀ t : Term, t.value?.isSome ↔ t.IsWhole
  | plain v => by simp [value?, IsWhole, texts]
  | text points => by simp [value?, IsWhole, texts, isSome_textOf?_iff]
  | list items => by simp [value?, IsWhole, texts, isSome_values?_iff items]
  | dict fields => by simp [value?, IsWhole, texts, isSome_fieldValues?_iff fields]

theorem isSome_values?_iff : ∀ items : List Term,
    (values? items).isSome ↔ ∀ points ∈ itemTexts items, AreCharacters points
  | [] => by simp [values?, itemTexts]
  | t :: rest => by
      have ht := isSome_value?_iff t
      have hrest := isSome_values?_iff rest
      rw [IsWhole] at ht
      simp only [itemTexts, List.mem_append, or_imp, forall_and, ← ht, ← hrest, values?]
      cases value? t <;> cases values? rest <;> simp

theorem isSome_fieldValues?_iff : ∀ fields : List (List Nat × Term),
    (fieldValues? fields).isSome ↔ ∀ points ∈ fieldTexts fields, AreCharacters points
  | [] => by simp [fieldValues?, fieldTexts]
  | (key, t) :: rest => by
      have hkey : (textOf? key).isSome ↔ AreCharacters key := isSome_textOf?_iff
      have ht := isSome_value?_iff t
      have hrest := isSome_fieldValues?_iff rest
      rw [IsWhole] at ht
      simp only [fieldTexts, List.mem_append, List.mem_cons, or_imp, forall_and, forall_eq, ← hkey,
        ← ht, ← hrest, fieldValues?]
      cases textOf? key <;> cases value? t <;> cases fieldValues? rest <;> simp

end

/-- The two halves of a pair are one character; a half that stands alone is read, and none. -/
example : (parse 1 "\"\\ud83d\\ude00\"").toOption.map value? = some (some (.text "😀")) ∧
    (parse 1 "[\"\\ude00\\ud83d\"]").toOption.map value? = some none := by
  decide +kernel

end Term

end DocCatalog.Json
