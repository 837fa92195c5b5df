import ConditionalStyles.Decimal.Shortest

/-!
Decimal texts of numbers. A layout says for which numbers an exponent is written, whether whole
numbers keep a decimal place, and which of two equally near decimals is taken.
-/
namespace ConditionalStyles.Decimal

structure Layout where
  /-- Leading digits at these powers of ten are written plainly; `none` leaves no exponents. -/
  plain : Option (Int × Int)
  /-- Whole numbers end in a point and a zero. -/
  wholePlace : Bool
  tie : Tie

namespace Layout

def zeros (n : Nat) : String := String.ofList (List.replicate n '0')

def plainText (l : Layout) (digits : List Char) (exponent : Int) : String :=
  let places := (-exponent).toNat
  if 0 ≤ exponent then
    String.ofList digits ++ zeros exponent.toNat ++ (if l.wholePlace then ".0" else "")
  else if places < digits.length then
    String.ofList (digits.take (digits.length - places)) ++ "." ++
      String.ofList (digits.drop (digits.length - places))
  else
    "0." ++ zeros (places - digits.length) ++ String.ofList digits

/-- One digit before the point; the exponent always has a sign. -/
def exponentText (digits : List Char) (leading : Int) : String :=
  String.ofList (digits.take 1) ++
    (if digits.length ≤ 1 then "" else "." ++ String.ofList (digits.drop 1)) ++
    (if leading < 0 then "e-" else "e+") ++ toString leading.natAbs

def write (l : Layout) (x : Double) : String :=
  let d := shortest l.tie x
  let digits := Nat.toDigits 10 d.coefficient
  let leading := d.exponent + digits.length - 1
  let text :=
    match l.plain with
    | none => l.plainText digits d.exponent
    | some (low, high) =>
      if low ≤ leading ∧ leading < high then l.plainText digits d.exponent
      else exponentText digits leading
  if x.negative then "-" ++ text else text

end Layout

end ConditionalStyles.Decimal
