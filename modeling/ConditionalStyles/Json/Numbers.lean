import ConditionalStyles.Json.Reader

/-!
Numerals and the numbers they stand for. A numeral without point and exponent that fits 64 bits is
an integer. Every other numeral is a double: of its digits those that fit 64 bits are kept, further
digits before the point count towards the exponent and further digits after it are dropped.
-/
namespace ConditionalStyles.Json

structure Numeral where
  negative : Bool
  whole : List Char
  /-- Empty exactly when there is no point. -/
  fraction : List Char
  /-- The sign, `true` for minus, and the digits. -/
  exponent : Option (Bool × List Char)
  deriving DecidableEq, Repr

namespace Numeral

def digitValue (c : Char) : Nat := c.toNat - 48

/-- Where 32 bits with a sign end. -/
def exponentLimit : Nat := 0x80000000

/-- Appends digits as long as the result fits 64 bits; the digits left over come second. -/
def gather : Nat → List Char → Nat × List Char
  | significand, [] => (significand, [])
  | significand, c :: cs =>
    let next := significand * 10 + digitValue c
    if next < Number.wordLimit then gather next cs else (significand, c :: cs)

def natValue (digits : List Char) : Nat :=
  digits.foldl (fun n c => n * 10 + digitValue c) 0

def integer (negative : Bool) (n : Nat) : Number :=
  if negative then
    if n = 0 ∨ Number.signedLimit < n then .double (.ofFloat true n.toUInt64.toFloat) else .int (-n)
  else .int n

def scaled? (negative : Bool) (significand : Nat) (exponent : Int) : Option Number :=
  (Decimal.Double.scaled? significand.toUInt64 exponent).map fun x => .double (.ofFloat negative x)

/-- There is no number when the numeral is too large. Exponents beyond their limit give zero or are
too large, without regard to the digits before them. -/
def toNumber? (n : Numeral) : Option Number :=
  let (whole, extra) := gather 0 n.whole
  if n.fraction.isEmpty && n.exponent.isNone && extra.isEmpty then some (integer n.negative whole)
  else
    let (significand, dropped) := gather whole n.fraction
    let shift : Int := extra.length + dropped.length - n.fraction.length
    match n.exponent with
    | none => scaled? n.negative significand shift
    | some (minus, digits) =>
      if exponentLimit ≤ natValue digits then
        if significand = 0 ∨ minus then some (.double (.ofFloat n.negative 0)) else none
      else if minus then scaled? n.negative significand (shift - natValue digits)
      else scaled? n.negative significand (shift + natValue digits)

end Numeral

namespace Reader

def digits : Reader (List Char) := fun s =>
  .ok (s.takeWhile Char.isDigit, s.dropWhile Char.isDigit)

/-- At least one digit. -/
def someDigits : Reader (List Char) := do
  match ← get with
  | [] => fail .truncated
  | c :: _ => if c.isDigit then digits else fail .malformed

/-- A leading zero stands alone. -/
def wholePart : Reader (List Char) := do
  let found ← someDigits
  match found with
  | '0' :: _ :: _ => fail .malformed
  | _ => return found

def fractionPart : Reader (List Char) := do
  match ← get with
  | '.' :: _ =>
    advance
    someDigits
  | _ => return []

def exponentSign : Reader Bool := do
  match ← get with
  | '+' :: _ =>
    advance
    return false
  | '-' :: _ =>
    advance
    return true
  | _ => return false

def exponentPart : Reader (Option (Bool × List Char)) := do
  match ← get with
  | c :: _ =>
    if c = 'e' ∨ c = 'E' then
      advance
      let minus ← exponentSign
      let found ← someDigits
      return some (minus, found)
    else return none
  | [] => return none

def sign : Reader Bool := do
  match ← get with
  | '-' :: _ =>
    advance
    return true
  | _ => return false

def numeral : Reader Numeral := do
  let negative ← sign
  let whole ← wholePart
  let fraction ← fractionPart
  let exponent ← exponentPart
  return ⟨negative, whole, fraction, exponent⟩

def number : Reader Number := do
  match (← numeral).toNumber? with
  | some n => return n
  | none => fail .malformed

/-- Passes over a numeral of any size; one that is cut off counts as malformed. -/
def skipNumber : Reader Unit := fun s =>
  match numeral s with
  | .ok (_, rest) => .ok ((), rest)
  | .error _ => .error .malformed

end Reader

end ConditionalStyles.Json
