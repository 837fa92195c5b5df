import ConditionalStyles.Json.Printer
import ConditionalStyles.Text.Characters

/-!
What can be wrong with a text that is read: it is malformed, it ends too early, or it is well
formed so far and holds something else than was wanted. And what can go wrong for a user of the
library.
-/
namespace ConditionalStyles

/-- What stood in the text. -/
inductive Found where
  | null
  | boolean (b : Bool)
  | number (n : Json.Number)
  | string (s : String)
  | sequence
  | map
  deriving DecidableEq, Repr

def Found.text : Found → String
  | .null => "null"
  | .boolean true => "boolean `true`"
  | .boolean false => "boolean `false`"
  | .number (.int n) => "integer `" ++ toString n ++ "`"
  | .number (.double x) => "floating point `" ++ (Json.Number.double x).text ++ "`"
  | .string s => "string " ++ Text.quoted s
  | .sequence => "sequence"
  | .map => "map"

/-- What the reader was looking for. -/
inductive Wanted where
  | boolean
  | map
  | string
  | unit
  | configuration
  | styleOrder
  deriving DecidableEq, Repr

def Wanted.text : Wanted → String
  | .boolean => "a boolean"
  | .map => "a map"
  | .string => "a string"
  | .unit => "unit"
  | .configuration => "struct HooksConfig"
  | .styleOrder => "struct SortOptions"

inductive Mismatch where
  | wrongType (found : Found) (wanted : Wanted)
  | unknownFallback (keyword : String)
  | repeatedField (name : String)
  | noCondition
  | noScope (source : String)
  deriving DecidableEq, Repr

def invalidScopeMessage (source : String) : String :=
  "invalid hook implementation `" ++ source ++
    "`: expected a selector containing `&` or an @media, @container or @supports rule"

def Mismatch.message : Mismatch → String
  | .wrongType found wanted => "invalid type: " ++ found.text ++ ", expected " ++ wanted.text
  | .unknownFallback keyword =>
    "unknown variant `" ++ keyword ++ "`, expected `revert-layer` or `unset`"
  | .repeatedField name => "duplicate field `" ++ name ++ "`"
  | .noCondition => "data did not match any variant of untagged enum Repr"
  | .noScope source => invalidScopeMessage source

inductive Fault where
  | malformed
  | truncated
  | mismatch (cause : Mismatch)
  deriving DecidableEq, Repr

inductive Error where
  | invalidScope (source : String)
  /-- A text was not a condition or a value. -/
  | text (fault : Fault)
  /-- A text was not a configuration. -/
  | configuration (fault : Fault)
  /-- A file could not be read as text. -/
  | unreadable
  deriving DecidableEq, Repr

namespace Error

/-- Faults other than mismatches have no wording of their own. -/
def message? : Error → Option String
  | invalidScope source => some (invalidScopeMessage source)
  | text (.mismatch cause) => some cause.message
  | configuration (.mismatch cause) => some ("invalid hooks configuration: " ++ cause.message)
  | text _ => none
  | configuration _ => none
  | unreadable => some "I/O error reading hooks configuration"

end Error

end ConditionalStyles
