import ConditionalStyles.Decimal.Double
import ConditionalStyles.OrderedMap

/-!
JSON values. An object keeps its fields as they were written, repeated names included; in
`Value.distinct` a repeated name keeps its first place and takes its last value.
-/
namespace ConditionalStyles.Json

/-- Numbers written as integers of 64 bits stay integers; all others are doubles. -/
inductive Number where
  | int (n : Int)
  | double (x : Decimal.Double)
  deriving DecidableEq, Repr

namespace Number

/-- Where 64 bits end. -/
def wordLimit : Nat := 0x10000000000000000

/-- Where 64 bits with a sign end, and below zero the last number that fits. -/
def signedLimit : Nat := 0x8000000000000000

end Number

inductive Value where
  | null
  | bool (b : Bool)
  | number (n : Number)
  | string (s : String)
  | array (items : List Value)
  | object (fields : List (String × Value))
  deriving Repr

namespace Value

instance : Inhabited Value := ⟨null⟩

def string? : Value → Option String
  | string s => some s
  | _ => none

/-- Integers of 64 bits with a sign. -/
def int64? : Value → Option Int
  | number (.int n) =>
    if -(Number.signedLimit : Int) ≤ n ∧ n < (Number.signedLimit : Int) then some n else none
  | _ => none

mutual

def distinct : Value → Value
  | null => null
  | bool b => bool b
  | number n => number n
  | string s => string s
  | array items => array (distinctItems items)
  | object fields => object (OrderedMap.ofList (distinctFields fields)).entries

def distinctItems : List Value → List Value
  | [] => []
  | item :: rest => distinct item :: distinctItems rest

def distinctFields : List (String × Value) → List (String × Value)
  | [] => []
  | (name, value) :: rest => (name, distinct value) :: distinctFields rest

end

end Value

end ConditionalStyles.Json
