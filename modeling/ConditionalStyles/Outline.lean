import ConditionalStyles.Configuration.Basic
import ConditionalStyles.Text.Characters

/-!
Outlines of values for inspection: nested brackets with names in front, on one line or with one part
a line. A configuration has an outline; of its naming function it shows only whether there is one.
-/
namespace ConditionalStyles

inductive Outline where
  | word (text : String)
  /-- A name and its arguments. -/
  | call (name : String) (arguments : List Outline)
  | list (items : List Outline)
  | map (entries : List Outline)
  | record (name : String) (fields : List Outline)
  /-- An entry of a map or a field of a record. -/
  | labelled (label : String) (value : Outline)
  deriving Repr

namespace Outline

mutual

def line : Outline → String
  | word text => text
  | call name arguments => name ++ "(" ++ lineParts arguments ++ ")"
  | list items => "[" ++ lineParts items ++ "]"
  | map entries => "\x7b" ++ lineParts entries ++ "\x7d"
  | record name fields => name ++ " \x7b " ++ lineParts fields ++ " \x7d"
  | labelled label value => label ++ ": " ++ line value

def lineParts : List Outline → String
  | [] => ""
  | [part] => line part
  | part :: next :: rest => line part ++ ", " ++ lineParts (next :: rest)

end

def indentation (level : Nat) : String := String.ofList (List.replicate (4 * level) ' ')

mutual

def linesAt (level : Nat) : Outline → String
  | word text => text
  | call name arguments => name ++ "(" ++ partsAt level arguments ++ ")"
  | list items => "[" ++ partsAt level items ++ "]"
  | map entries => "\x7b" ++ partsAt level entries ++ "\x7d"
  | record name fields => name ++ " \x7b" ++ partsAt level fields ++ "\x7d"
  | labelled label value => label ++ ": " ++ linesAt level value

/-- What stands between two brackets: nothing, or lines that are further indented. -/
def partsAt (level : Nat) : List Outline → String
  | [] => ""
  | part :: rest => "\n" ++ partLines (level + 1) (part :: rest) ++ indentation level

def partLines (level : Nat) : List Outline → String
  | [] => ""
  | part :: rest => indentation level ++ linesAt level part ++ ",\n" ++ partLines level rest

end

def lines (o : Outline) : String := linesAt 0 o

def ofBool (b : Bool) : Outline := word (if b then "true" else "false")

end Outline

def Scope.outline : Scope → Outline
  | selector s => .call "Selector" [.word (Text.quoted s)]
  | atRule s => .call "AtRule" [.word (Text.quoted s)]

def Connective.outlineName : Connective → String
  | all => "And"
  | any => "Or"

namespace Condition

mutual

def outline : Condition Scope → Outline
  | atom scope => .call "Atom" [scope.outline]
  | not c => .call "Not" [outline c]
  | connect k cs => .call k.outlineName [.list (outlineList cs)]

def outlineList : List (Condition Scope) → List Outline
  | [] => []
  | c :: cs => outline c :: outlineList cs

end

end Condition

def Fallback.outline : Fallback → Outline
  | revertLayer => .word "RevertLayer"
  | unset => .word "Unset"

def StyleOrder.outline (o : StyleOrder) : Outline :=
  .record "SortOptions"
    [.labelled "properties" (.ofBool o.latestLast),
      .labelled "conditional_styles" (.ofBool o.overridesLast)]

def Configuration.outline (config : Configuration) : Outline :=
  .record "HooksConfig"
    [.labelled "hooks" (.map (config.hooks.entries.map fun entry =>
        .labelled (Text.quoted entry.1) entry.2.outline)),
      .labelled "fallback" config.fallback.outline,
      .labelled "debug" (.ofBool config.readable),
      .labelled "sort" config.order.outline,
      .labelled "hook_name_to_id" (.ofBool config.naming.isSome)]

end ConditionalStyles
