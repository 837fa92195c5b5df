import ConditionalStyles.Decimal.Layout
import ConditionalStyles.Json.Value
import ConditionalStyles.Text.Characters

/-!
JSON texts of values: on one line without blanks, or with one item a line, each level indented by
two spaces.
-/
namespace ConditionalStyles.Json

/-- Plain from `0.00001` up to sixteen digits before the point, with a place after the point. -/
def Number.layout : Decimal.Layout := ⟨some (-5, 16), true, .toEven⟩

def Number.text : Number → String
  | .int n => toString n
  | .double x => Number.layout.write x

namespace Value

mutual

def compact : Value → String
  | null => "null"
  | bool true => "true"
  | bool false => "false"
  | number n => n.text
  | string s => Text.literal s
  | array items => "[" ++ compactItems items ++ "]"
  | object fields => "\x7b" ++ compactFields fields ++ "\x7d"

def compactItems : List Value → String
  | [] => ""
  | [item] => compact item
  | item :: next :: rest => compact item ++ "," ++ compactItems (next :: rest)

def compactFields : List (String × Value) → String
  | [] => ""
  | [(name, value)] => Text.literal name ++ ":" ++ compact value
  | (name, value) :: next :: rest =>
    Text.literal name ++ ":" ++ compact value ++ "," ++ compactFields (next :: rest)

end

/-- The start of a line at a level. -/
def newline (level : Nat) : String := "\n" ++ String.ofList (List.replicate (2 * level) ' ')

mutual

def prettyAt (level : Nat) : Value → String
  | null => "null"
  | bool true => "true"
  | bool false => "false"
  | number n => n.text
  | string s => Text.literal s
  | array [] => "[]"
  | array (item :: rest) =>
    "[" ++ newline (level + 1) ++ prettyItems (level + 1) (item :: rest) ++ newline level ++ "]"
  | object [] => "\x7b\x7d"
  | object (field :: rest) =>
    "\x7b" ++ newline (level + 1) ++ prettyFields (level + 1) (field :: rest) ++ newline level ++
      "\x7d"

def prettyItems (level : Nat) : List Value → String
  | [] => ""
  | [item] => prettyAt level item
  | item :: next :: rest =>
    prettyAt level item ++ "," ++ newline level ++ prettyItems level (next :: rest)

def prettyFields (level : Nat) : List (String × Value) → String
  | [] => ""
  | [(name, value)] => Text.literal name ++ ": " ++ prettyAt level value
  | (name, value) :: next :: rest =>
    Text.literal name ++ ": " ++ prettyAt level value ++ "," ++ newline level ++
      prettyFields level (next :: rest)

end

def pretty (v : Value) : String := prettyAt 0 v

end Value

end ConditionalStyles.Json
