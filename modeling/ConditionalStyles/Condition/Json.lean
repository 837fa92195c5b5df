import ConditionalStyles.Condition.Basic
import ConditionalStyles.Json.Document

/-!
Conditions as JSON values. A compound is an object with one field, `and` or `or`, that lists its
operands; a negation is an object with the field `not`; every other value is an atom. A value is
read by trying these fields in that order and then the atom. Other fields do not count, but the
field that is tried must occur just once.
-/
namespace ConditionalStyles

def Connective.fieldName : Connective → String
  | all => "and"
  | any => "or"

namespace Condition

variable {α : Type}

mutual

def toJson (atomJson : α → Json.Value) : Condition α → Json.Value
  | atom a => atomJson a
  | not c => .object [("not", toJson atomJson c)]
  | connect k cs => .object [(k.fieldName, .array (toJsonList atomJson cs))]

def toJsonList (atomJson : α → Json.Value) : List (Condition α) → List Json.Value
  | [] => []
  | c :: cs => toJson atomJson c :: toJsonList atomJson cs

end

/-- The condition on one line, without blanks. -/
def encode (atomJson : α → Json.Value) (c : Condition α) : String := (c.toJson atomJson).compact

mutual

def ofJson? (atom? : Json.Value → Option α) : Json.Value → Option (Condition α)
  | .object fields =>
    (operandsAt? atom? "and" fields).map all <|>
      (operandsAt? atom? "or" fields).map any <|>
        (operandAt? atom? "not" fields).map not <|>
          (atom? (.object fields)).map atom
  | .array items => (atom? (.array items)).map atom
  | .string s => (atom? (.string s)).map atom
  | .number n => (atom? (.number n)).map atom
  | .bool b => (atom? (.bool b)).map atom
  | .null => (atom? .null).map atom

def operands? (atom? : Json.Value → Option α) : Json.Value → Option (List (Condition α))
  | .array items => ofJsonList? atom? items
  | _ => none

def ofJsonList? (atom? : Json.Value → Option α) : List Json.Value → Option (List (Condition α))
  | [] => some []
  | item :: rest =>
    match ofJson? atom? item, ofJsonList? atom? rest with
    | some c, some cs => some (c :: cs)
    | _, _ => none

/-- The operands in the only field of the given name. -/
def operandsAt? (atom? : Json.Value → Option α) (name : String) :
    List (String × Json.Value) → Option (List (Condition α))
  | [] => none
  | (key, value) :: rest =>
    if key = name then
      if rest.any (fun field => field.1 == name) then none else operands? atom? value
    else operandsAt? atom? name rest

/-- The condition in the only field of the given name. -/
def operandAt? (atom? : Json.Value → Option α) (name : String) :
    List (String × Json.Value) → Option (Condition α)
  | [] => none
  | (key, value) :: rest =>
    if key = name then
      if rest.any (fun field => field.1 == name) then none else ofJson? atom? value
    else operandAt? atom? name rest

end

/-- A condition with at most `depth` arrays and objects open at a time. It is read as a value first,
so that faults of the text come before its shape. -/
def reader (atom? : Json.Value → Option α) (depth : Nat) : Json.Reader (Condition α) := do
  match ofJson? atom? (← Json.Reader.value depth) with
  | some c => return c
  | none => Json.Reader.fail (.mismatch .noCondition)

def read (atom? : Json.Value → Option α) (text : String) : Except Fault (Condition α) :=
  (reader atom? Json.depthLimit).run text

end Condition

end ConditionalStyles
