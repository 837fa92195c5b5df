import ConditionalStyles.Decimal.Double

/-!
The shortest decimal that reads back as a given number. A decimal reads back as the number when it
lies between the midpoints to the neighbouring numbers, a midpoint counting when the significand is
even. On the grid of the multiples of a power of ten only the two points next to the number need to
be tried; the coarsest grid with a point that reads back gives the digits.
-/
namespace ConditionalStyles.Decimal

/-- Which of two equally near decimals is taken. -/
inductive Tie where
  | up
  | toEven
  deriving DecidableEq, Repr

/-- A coefficient times a power of ten. -/
structure Digits where
  coefficient : Nat
  exponent : Int
  deriving DecidableEq, Repr

/-- A positive number and the midpoints around it, all in parts of `1 / parts`. -/
structure Interval where
  value : Nat
  lower : Nat
  upper : Nat
  parts : Nat
  closed : Bool
  deriving Repr

namespace Interval

def ofDouble (x : Double) : Interval :=
  let m := x.significand
  let scale := Nat.pow 2 x.exponent.toNat
  { value := 4 * m * scale
    lower := (4 * m - (if x.onBinade then 1 else 2)) * scale
    upper := (4 * m + 2) * scale
    parts := 4 * Nat.pow 2 (-x.exponent).toNat
    closed := m % 2 == 0 }

def contains (i : Interval) (point factor : Nat) : Bool :=
  if i.closed then i.lower * factor ≤ point && point ≤ i.upper * factor
  else i.lower * factor < point && point < i.upper * factor

/-- The multiple of `10 ^ exponent` nearest to the value, if one next to it reads back. -/
def nearest? (tie : Tie) (i : Interval) (exponent : Int) : Option Nat :=
  let factor := Nat.pow 10 (-exponent).toNat
  let step := i.parts * Nat.pow 10 exponent.toNat
  let below := i.value * factor / step
  let rest := i.value * factor % step
  match i.contains (below * step) factor, i.contains ((below + 1) * step) factor with
  | true, true =>
    if 2 * rest < step then some below
    else if step < 2 * rest then some (below + 1)
    else match tie with
      | .up => some (below + 1)
      | .toEven => if below % 2 = 0 then some below else some (below + 1)
  | true, false => some below
  | false, true => some (below + 1)
  | false, false => none

/-- The least power of ten above the value. Every number is at least `10 ^ (-350)`. -/
def magnitude (i : Interval) : Int :=
  ((Nat.toDigits 10 (i.value * Nat.pow 10 350 / i.parts)).length : Int) - 350

/-- Tries grids of growing fineness; `remaining` counts those left. -/
def shortestFrom (tie : Tie) (i : Interval) (exponent : Int) : Nat → Digits
  | 0 => ⟨(i.nearest? tie exponent).getD 0, exponent⟩
  | remaining + 1 =>
    match i.nearest? tie exponent with
    | some coefficient => ⟨coefficient, exponent⟩
    | none => shortestFrom tie i (exponent - 1) remaining

end Interval

namespace Digits

/-- Moves trailing zeros of the coefficient into the exponent, at most `count` of them. -/
def trimFrom (d : Digits) : Nat → Digits
  | 0 => d
  | count + 1 =>
    if d.coefficient ≠ 0 ∧ d.coefficient % 10 = 0 then
      trimFrom ⟨d.coefficient / 10, d.exponent + 1⟩ count
    else d

end Digits

/-- Seventeen digits always suffice. -/
def shortest (tie : Tie) (x : Double) : Digits :=
  if x.significand = 0 then ⟨0, 0⟩
  else
    let i := Interval.ofDouble x
    (Interval.shortestFrom tie i (i.magnitude - 1) 16).trimFrom 17

end ConditionalStyles.Decimal
