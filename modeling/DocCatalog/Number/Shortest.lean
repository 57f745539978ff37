/-
**The shortest decimal that reads back as a number.**

Of all decimals that round to a number, one with the fewest digits is written, and of those the
nearest to the number; of two equally near the one with an even last digit.  The search tries one
digit, two, and so on up to seventeen, which always suffice: on the grid of decimals with that many
digits only the two neighbours of the number can be the nearest, and they are compared with the ends
of the interval that rounds to it.

Main definitions:

* `Shortest.decimal`: digits `d` and a position `k`, for the decimal `0.d * 10 ^ k`;
* `DecimalLayout`: where positional notation ends, and how an exponent is written;
* `Binary64.render`: the text of a number in a layout.
-/

import DocCatalog.Number.Binary64

set_option autoImplicit false

namespace DocCatalog

namespace Shortest

/-- How many decimal digits a number has; zero has none. -/
def digitCount (n : Nat) : Nat := if n = 0 then 0 else (Nat.toDigits 10 n).length

/-- The position `k` with `10 ^ (k - 1) ≤ num / den < 10 ^ k`, for positive `num` and `den`. -/
def position (num den : Nat) : Int :=
  if den ≤ num then digitCount (num / den) else 1 - (digitCount ((den - 1) / num) : Int)

/-- On the grid of multiples of `10 ^ g`: the one nearest to `num / den` that lies in the interval
from `lo / den` to `hi / den`, ends included iff `closed`. -/
def onGrid? (num lo hi den : Nat) (closed : Bool) (g : Int) : Option Nat :=
  let up := if 0 ≤ g then 1 else Nat.pow 10 (-g).toNat
  let unit := if 0 ≤ g then den * Nat.pow 10 g.toNat else den
  let below := num * up / unit
  let inside (c : Nat) : Bool :=
    if closed then lo * up ≤ c * unit && c * unit ≤ hi * up
    else lo * up < c * unit && c * unit < hi * up
  match inside below, inside (below + 1) with
  | true, false => some below
  | false, true => some (below + 1)
  | false, false => none
  | true, true => some (roundDiv (num * up) unit)

/-- The first grid with a hit, trying `count` grids of which the first has `n` digits. -/
def search (num lo hi den : Nat) (closed : Bool) (k : Int) : Nat → Nat → Nat × Int
  | 0, n => (num, k - n)
  | count + 1, n =>
      match onGrid? num lo hi den closed (k - n) with
      | some c => (c, k - n)
      | none => search num lo hi den closed k count (n + 1)

/-- The shortest decimal `c * 10 ^ g` that rounds to the positive number `m * 2 ^ e`. -/
def nearest (m : Nat) (e : Int) : Nat × Int :=
  -- four units of `e - 2` to one of `e`, so that the ends of the interval are whole
  let scale := if 0 ≤ e - 2 then Nat.pow 2 (e - 2).toNat else 1
  let den := if 0 ≤ e - 2 then 1 else Nat.pow 2 (-(e - 2)).toNat
  let lower := if m = Nat.pow 2 52 ∧ Binary64.leastExponent < e then 4 * m - 1 else 4 * m - 2
  let num := 4 * m * scale
  search num (lower * scale) ((4 * m + 2) * scale) den (m % 2 = 0) (position num den) 17 1

/-- The digits of that decimal without the zeros at their end, and the position of its point. -/
def decimal (m : Nat) (e : Int) : List Char × Int :=
  let (c, g) := nearest m e
  let digits := Nat.toDigits 10 c
  ((digits.reverse.dropWhile (· = '0')).reverse, digits.length + g)

end Shortest

/-- How a decimal is laid out. -/
structure DecimalLayout where
  /-- The least exponent of ten that is written positionally. -/
  leastPositional : Int
  /-- The first exponent of ten that is not. -/
  endPositional : Int
  /-- The least number of digits in an exponent. -/
  exponentDigits : Nat
  infinity : String
  nan : String

namespace DecimalLayout

/-- The decimal `0.d * 10 ^ k` in this layout, for digits `d` that begin and end with none of the
zeros that do not count. -/
def render (l : DecimalLayout) (d : List Char) (k : Int) : String :=
  let exponent := k - 1
  if l.leastPositional ≤ exponent ∧ exponent < l.endPositional then
    if k ≤ 0 then "0." ++ String.ofList (List.replicate (-k).toNat '0' ++ d)
    else
      let whole := d.take k.toNat
      let rest := d.drop k.toNat
      String.ofList (whole ++ List.replicate (k.toNat - d.length) '0') ++ "."
        ++ (if rest = [] then "0" else String.ofList rest)
  else
    let head := match d with
      | [] => "0"
      | [c] => c.toString
      | c :: rest => c.toString ++ "." ++ String.ofList rest
    let digits := Nat.toDigits 10 exponent.natAbs
    head ++ (if exponent < 0 then "e-" else "e+")
      ++ String.ofList (List.replicate (l.exponentDigits - digits.length) '0' ++ digits)

end DecimalLayout

/-- The text of a number in a layout. -/
def Binary64.render (l : DecimalLayout) : Binary64 → String
  | .nan => l.nan
  | .infinity negative => (if negative then "-" else "") ++ l.infinity
  | .finite negative m e =>
      (if negative then "-" else "") ++
        (if m = 0 then "0.0" else l.render (Shortest.decimal m e).1 (Shortest.decimal m e).2)

end DocCatalog
