/-!
Numbers with 64 bits: a sign, a significand below `2 ^ 53` and a power of two. The value of a
number is read off its bits, so that its decimal text can be found by exact arithmetic.
-/
namespace ConditionalStyles.Decimal

structure Double where
  bits : UInt64
  deriving DecidableEq, Repr

namespace Double

def negative (x : Double) : Bool := x.bits >>> 63 == 1

def exponentField (x : Double) : Nat := ((x.bits >>> 52) &&& 0x7FF).toNat

def fractionField (x : Double) : Nat := (x.bits &&& 0xFFFFFFFFFFFFF).toNat

/-- The number is its significand times two to its exponent, up to its sign. -/
def significand (x : Double) : Nat :=
  if x.exponentField = 0 then x.fractionField else 0x10000000000000 + x.fractionField

def exponent (x : Double) : Int := (max 1 x.exponentField : Int) - 1075

/-- The neighbour below is half as far away as the neighbour above. -/
def onBinade (x : Double) : Bool := x.fractionField == 0 && 1 < x.exponentField

def powerOfTen (n : Nat) : Float := Float.ofScientific 1 false n

/-- Division by a power of ten, in steps of at most 308 places. -/
def divideByPower (x : Float) (places : Nat) : Float :=
  if places ≤ 308 then x / powerOfTen places
  else if x == 0 then x
  else divideByPower (x / powerOfTen 308) (places - 308)
termination_by places

/-- A significand of 64 bits scaled by a power of ten: the significand is rounded first, then its
product or quotient with the power. There is none when the product is too large. -/
def scaled? (significand : UInt64) (exponent : Int) : Option Float :=
  if exponent < 0 then
    some (divideByPower significand.toFloat exponent.natAbs)
  else if exponent ≤ 308 then
    let x := significand.toFloat * powerOfTen exponent.natAbs
    if x.isInf then none else some x
  else if significand == 0 then some 0
  else none

def ofFloat (negative : Bool) (x : Float) : Double :=
  ⟨if negative then (-x).toBits else x.toBits⟩

end Double

end ConditionalStyles.Decimal
