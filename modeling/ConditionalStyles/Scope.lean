import ConditionalStyles.Condition.Json

/-!
Scopes: the part of a style sheet that turns a hook on. A scope is the prelude of a conditional
group rule, or a selector in which `&` stands for the styled element.
-/
namespace ConditionalStyles

inductive Scope where
  | selector (source : String)
  | atRule (source : String)
  deriving DecidableEq, Repr

namespace Scope

def source : Scope → String
  | selector s => s
  | atRule s => s

def groupRules : List String := ["media", "container", "supports"]

/-- A blank must follow the name of the rule. -/
def startsGroupRule (cs : List Char) : Bool :=
  match cs with
  | '@' :: rest =>
    groupRules.any fun name =>
      name.toList.isPrefixOf rest && (rest.drop name.length).head?.any Json.Reader.isBlank
  | _ => false

def ofString? (s : String) : Option Scope :=
  if startsGroupRule s.toList then some (atRule s)
  else if s.toList.contains '&' then some (selector s)
  else none

/-- The prelude that applies the scope to every element. -/
def universal : Scope → String
  | selector s => String.ofList (s.toList.map fun c => if c = '&' then '*' else c)
  | atRule s => s

def toJson (s : Scope) : Json.Value := .string s.source

def ofJson? (v : Json.Value) : Option Scope := v.string?.bind ofString?

def read (text : String) : Except Fault Scope :=
  Json.Reader.run
    (do
      let s ← Json.Reader.string
      match ofString? s with
      | some scope => return scope
      | none => Json.Reader.fail (.mismatch (.noScope s)))
    text

end Scope

/-- A condition over scopes, as one line of JSON. -/
def Condition.encodeScopes (c : Condition Scope) : String := c.encode Scope.toJson

end ConditionalStyles
