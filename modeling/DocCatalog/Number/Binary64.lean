/-
**Binary floating-point numbers of 64 bits, as exact values.**

A finite number is a sign and a significand below `2 ^ 53` times a power of two; two infinities and
one not-a-number stand beside them.  Nothing here computes with machine floats: a decimal is rounded
to the nearest number in exact arithmetic.

Main definitions:

* `Binary64`: the numbers;
* `roundDiv`: the integer nearest to a quotient, a half going to the even neighbour;
* `Binary64.ofDecimal`: the number nearest to `d * 10 ^ p`;
* `Binary64.integer?`: the integer that a number equals.

Main results:

* `roundDiv_within_half`: rounding moves a quotient by a half at most.
-/

set_option autoImplicit false

namespace DocCatalog

/-- A number: `finite s m e` is `m * 2 ^ e`, negated if `s`. -/
inductive Binary64 where
  | finite (negative : Bool) (significand : Nat) (exponent : Int)
  | infinity (negative : Bool)
  | nan
  deriving DecidableEq, Repr

/-- The integer nearest to `num / den`; a half goes to the even neighbour. -/
def roundDiv (num den : Nat) : Nat :=
  let q := num / den
  let r := num % den
  if den < 2 * r ∨ (2 * r = den ∧ q % 2 = 1) then q + 1 else q

/-- Rounding moves a quotient by a half at most. -/
theorem roundDiv_within_half (num den : Nat) (h : 0 < den) :
    2 * num ≤ (2 * roundDiv num den + 1) * den ∧ (2 * roundDiv num den) * den ≤ 2 * num + den := by
  have hdm : den * (num / den) + num % den = num := Nat.div_add_mod num den
  have hlt : num % den < den := Nat.mod_lt num h
  unfold roundDiv
  generalize num / den = q at hdm ⊢
  generalize num % den = r at hdm hlt ⊢
  subst hdm
  have e1 : 2 * (den * q + r) = 2 * q * den + 2 * r := by grind
  have e2 : (2 * (q + 1) + 1) * den = 2 * q * den + 3 * den := by grind
  have e3 : 2 * (q + 1) * den = 2 * q * den + 2 * den := by grind
  have e4 : (2 * q + 1) * den = 2 * q * den + den := by grind
  dsimp only
  split <;> omega

namespace Binary64

-- powers are written `Nat.pow`, since what `^` means depends on what is imported beside this

/-- The exponent of the smallest numbers. -/
def leastExponent : Int := -1074

/-- The exponent of the largest numbers. -/
def greatestExponent : Int := 971

/-- Zero, with a sign. -/
def zero (negative : Bool) : Binary64 := finite negative 0 leastExponent

/-- The number nearest to `num / den`, both positive. -/
def ofRatio (negative : Bool) (num den : Nat) : Binary64 :=
  let scaled (e : Int) : Nat × Nat :=
    if 0 ≤ e then (num, den * Nat.pow 2 e.toNat) else (num * Nat.pow 2 (-e).toNat, den)
  let guess : Int := (num.log2 : Int) - (den.log2 : Int) - 53
  let q := scaled guess
  let e := max leastExponent (if q.1 < q.2 * Nat.pow 2 53 then guess else guess + 1)
  let m := roundDiv (scaled e).1 (scaled e).2
  let (m, e) := if m = Nat.pow 2 53 then (Nat.pow 2 52, e + 1) else (m, e)
  if greatestExponent < e then infinity negative else finite negative m e

/-- The number nearest to `digits * 10 ^ power`.  Powers far outside the range are answered without
computing them: every finite number is below `10 ^ 310`, and below `10 ^ (-330)` all round to
zero. -/
def ofDecimal (negative : Bool) (digits : Nat) (power : Int) : Binary64 :=
  if digits = 0 then zero negative
  else
    let size := (Nat.toDigits 10 digits).length + power
    if 310 < size then infinity negative
    else if size < -330 then zero negative
    else if 0 ≤ power then ofRatio negative (digits * Nat.pow 10 power.toNat) 1
    else ofRatio negative digits (Nat.pow 10 (-power).toNat)

/-- Whether a number is zero, of either sign. -/
def isZero : Binary64 → Bool
  | finite _ m _ => m = 0
  | _ => false

/-- The integer that a number equals, if there is one. -/
def integer? : Binary64 → Option Int
  | finite negative m e =>
      let magnitude? : Option Nat :=
        if 0 ≤ e then some (m * Nat.pow 2 e.toNat)
        else if m % Nat.pow 2 (-e).toNat = 0 then some (m / Nat.pow 2 (-e).toNat)
        else none
      magnitude?.map fun n => if negative then -(n : Int) else n
  | _ => none

end Binary64

end DocCatalog
