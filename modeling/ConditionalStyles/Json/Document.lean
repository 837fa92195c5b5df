import ConditionalStyles.Json.Numbers
import ConditionalStyles.Json.Strings

/-!
Whole JSON values. Arrays and objects may be nested up to a given depth; a value that is passed over
may be nested without limit, since a text cannot be nested deeper than it is long.
-/
namespace ConditionalStyles.Json

/-- How many arrays and objects of a document may be open at a time. -/
def depthLimit : Nat := 127

namespace Reader

def fieldName : Reader String := do
  advance
  stringBody

/-- One field: its name, a colon and its value. -/
def valueField (value : Reader Value) (found : List (String × Value)) :
    Reader (List (String × Value)) := do
  let name ← fieldName
  colon
  let v ← value
  return (name, v) :: found

/-- A value whose items and fields are read by `inner`; none may follow when it is missing. -/
def valueWith (inner : Option (Reader Value)) : Reader Value := do
  match ← peek? with
  | none => fail .truncated
  | some 'n' =>
    word "null".toList
    return .null
  | some 't' =>
    word "true".toList
    return .bool true
  | some 'f' =>
    word "false".toList
    return .bool false
  | some '"' =>
    advance
    return .string (← stringBody)
  | some '[' =>
    match inner with
    | none => fail .malformed
    | some value =>
      advance
      return .array (← items value)
  | some '\x7b' =>
    match inner with
    | none => fail .malformed
    | some value =>
      advance
      return .object (← fields (valueField value) []).reverse
  | some c =>
    if c = '-' ∨ c.isDigit then return .number (← number) else fail .malformed

/-- A value with at most `depth` arrays and objects open at a time. -/
def value : Nat → Reader Value
  | 0 => valueWith none
  | depth + 1 => valueWith (some (value depth))

def skipField (skipValue : Reader Unit) (_ : Unit) : Reader Unit := do
  advance
  skipStringBody
  colon
  skipValue

def skipWith (inner : Reader Unit) : Reader Unit := do
  match ← peek? with
  | none => fail .truncated
  | some 'n' => word "null".toList
  | some 't' => word "true".toList
  | some 'f' => word "false".toList
  | some '"' =>
    advance
    skipStringBody
  | some '[' =>
    advance
    let _ ← items inner
  | some '\x7b' =>
    advance
    fields (skipField inner) ()
  | some c => if c = '-' ∨ c.isDigit then skipNumber else fail .malformed

def skipNested : Nat → Reader Unit
  | 0 => fail .truncated
  | depth + 1 => skipWith (skipNested depth)

/-- Passes over a value of any depth. -/
def skip : Reader Unit := do
  skipNested ((← get).length + 1)

/-- Reports what stands here instead of what was wanted. -/
def wrongType {α : Type} (wanted : Wanted) : Reader α := do
  let found : Found ← do
    match ← peek? with
    | none => fail .malformed
    | some 'n' =>
      word "null".toList
      pure Found.null
    | some 't' =>
      word "true".toList
      pure (Found.boolean true)
    | some 'f' =>
      word "false".toList
      pure (Found.boolean false)
    | some '"' =>
      advance
      pure (Found.string (← stringBody))
    | some '[' => pure Found.sequence
    | some '\x7b' => pure Found.map
    | some c => if c = '-' ∨ c.isDigit then pure (Found.number (← number)) else fail .malformed
  fail (.mismatch (.wrongType found wanted))

def string : Reader String := do
  match ← peek? with
  | none => fail .truncated
  | some '"' => fieldName
  | some _ => wrongType .string

end Reader

/-- A document with repeated names kept. -/
def read (text : String) : Except Fault Value := (Reader.value depthLimit).run text

/-- A document whose objects have distinct names. -/
def readDistinct (text : String) : Except Fault Value := (read text).map Value.distinct

end ConditionalStyles.Json
