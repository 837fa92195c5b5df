import ConditionalStyles.Scope

/-!
Names of toggles. A hook is named by the digest of its definition, with its own name in front when
the style sheet is to be read by people; toggles made while merging styles are numbered. The digest
of a text is the value at 31 of the polynomial whose coefficients are its sixteen-bit units, kept to
31 bits and written in base 36.
-/
namespace ConditionalStyles

namespace Digest

def absorb (acc unit : UInt32) : UInt32 := ((acc <<< 5) - acc + unit) &&& 0x7FFFFFFF

def value (s : String) : UInt32 := (Text.units s).foldl absorb 0

def digit36 (n : Nat) : Char :=
  if n < 10 then Char.ofNat (48 + n) else Char.ofNat (87 + n)

/-- The digits of a number below `36 ^ places`, without leading zeros. -/
def digitsFrom : Nat → Nat → List Char
  | 0, _ => []
  | places + 1, n =>
    if n < 36 then [digit36 n] else digitsFrom places (n / 36) ++ [digit36 (n % 36)]

/-- Seven places hold every word of 32 bits. -/
def numeral (n : UInt32) : String := String.ofList (digitsFrom 7 n.toNat)

def ofText (s : String) : String := numeral (value s)

end Digest

namespace Identifier

def isPlain (c : Char) : Bool := c.isAlphanum || c == '-'

/-- Every character that is not plain becomes an underscore. -/
def clean (name : String) : String :=
  String.ofList (name.toList.map fun c => if isPlain c then c else '_')

def ofHook (readable : Bool) (name : String) (definition : Condition Scope) : String :=
  let digest := Digest.ofText definition.encodeScopes
  if readable then clean name ++ "-" ++ digest else digest

def numbered (n : Nat) : String := "cond" ++ toString n

end Identifier

end ConditionalStyles
