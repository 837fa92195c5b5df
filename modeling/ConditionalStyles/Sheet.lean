import ConditionalStyles.Scope
import ConditionalStyles.Toggle

/-!
Style sheets that carry the truth values of conditions. A rule for all elements settles every atom
as if its scope did not apply and combines the toggles of operands; a further rule for each atom
settles it anew inside its scope. Negations are pushed to the atoms, and the toggles of the two
operands of a compound are named by a letter after its own name.
-/
namespace ConditionalStyles

structure Rule where
  scope : Scope
  body : List Declaration
  deriving DecidableEq, Repr

structure Sheet where
  root : List Declaration
  rules : List Rule
  deriving DecidableEq, Repr

namespace Sheet

def empty : Sheet := ⟨[], []⟩

def append (s t : Sheet) : Sheet := ⟨s.root ++ t.root, s.rules ++ t.rules⟩

instance : Append Sheet := ⟨append⟩

/-- An atom holds inside its scope, unless it is negated. -/
def leaf (id : String) (negated : Bool) (scope : Scope) : Sheet :=
  ⟨Toggle.settle id negated, [⟨scope, Toggle.settle id (!negated)⟩]⟩

mutual

def ofCondition (id : String) (negated : Bool) : Condition Scope → Sheet
  | .atom scope => leaf id negated scope
  | .not c => ofCondition id (!negated) c
  | .connect k cs => ofOperands id negated k cs

def ofOperands (id : String) (negated : Bool) (k : Connective) : List (Condition Scope) → Sheet
  | [] => empty
  | [c] => ofCondition id negated c
  | c :: d :: rest =>
    ofCondition (id ++ "A") negated c ++ ofOperands (id ++ "B") negated k (d :: rest) ++
      ⟨Toggle.wire id (k.under negated) { id := id ++ "A" } { id := id ++ "B" }, []⟩

end

/-- The conditions of several toggles, one after the other. -/
def ofHooks : List (String × Condition Scope) → Sheet
  | [] => empty
  | (id, c) :: rest => ofCondition id false c ++ ofHooks rest

def declarationsText (s : Spacing) (level : Nat) (ds : List Declaration) : String :=
  String.join (ds.map (Declaration.text s level))

/-- A rule with its body in braces. -/
def blockText (s : Spacing) (level : Nat) (head body : String) : String :=
  s.indentation level ++ head ++ s.space ++ "\x7b" ++ s.newline ++ body ++
    s.indentation level ++ "\x7d" ++ s.newline

def ruleText (s : Spacing) (r : Rule) : String :=
  match r.scope with
  | .selector _ => blockText s 0 r.scope.universal (declarationsText s 1 r.body)
  | .atRule _ =>
    blockText s 0 r.scope.universal (blockText s 1 "*" (declarationsText s 2 r.body))

def text (s : Spacing) (sheet : Sheet) : String :=
  blockText s 0 "*" (declarationsText s 1 sheet.root) ++ String.join (sheet.rules.map (ruleText s))

end Sheet

end ConditionalStyles
