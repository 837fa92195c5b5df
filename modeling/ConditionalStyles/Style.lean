import ConditionalStyles.Condition.Normal
import ConditionalStyles.Configuration.Basic
import ConditionalStyles.Log

/-!
Styles and how blocks are merged into one. A block sets properties and may override some of them
where a condition over hooks holds; a list of blocks is applied as a sequence of changes. Properties
that are set are written as they are. An override reads the toggle of its condition: its value where
the toggle is on, and what the property was before where it is off. The toggle of a condition that
is not a single hook is declared in the style itself, under a number that counts such overrides:
negation exchanges the channels of a toggle, and the operands of a compound condition are declared
under its name and a letter.
-/
namespace ConditionalStyles

/-- How the value of a property is written in a style, if it can be written at all. -/
abbrev ValueText := String → Json.Value → Option String

namespace ValueText

/-- No exponents, and no decimal place for whole numbers. -/
def numberLayout : Decimal.Layout := ⟨none, false, .up⟩

def numberText : Json.Number → String
  | .int n => toString n
  | .double x => numberLayout.write x

/-- Strings stand for themselves and numbers are written out; nothing else has a text. -/
def generic : ValueText := fun _ value =>
  match value with
  | .string s => some s
  | .number n => some (numberText n)
  | _ => none

end ValueText

/-- The properties of an element, in order. -/
abbrev Style := OrderedMap Json.Value

/-- Properties that apply where a condition over hook names holds. -/
structure Override where
  condition : Condition String
  properties : Style

structure Block where
  properties : Style := ∅
  overrides : List Override := []

/-- A step of a merge. -/
inductive Change where
  | set (properties : Style)
  | override (override : Override)

namespace Change

def ofBlock (block : Block) : List Change := set block.properties :: block.overrides.map override

/-- Overrides come with their blocks, or after all blocks when they are to be last. -/
def ofBlocks (overridesLast : Bool) (blocks : List Block) : List Change :=
  if overridesLast then
    blocks.map (fun block => set block.properties) ++
      blocks.flatMap fun block => block.overrides.map override
  else blocks.flatMap ofBlock

end Change

/-- A toggle and the declarations that it needs. -/
structure Wiring where
  toggle : Toggle
  declarations : List Declaration := []
  deriving DecidableEq, Repr

namespace Wiring

mutual

def ofCondition (name : String) : Condition String → Wiring
  | .atom id => { toggle := { id } }
  | .not c =>
    let inner := ofCondition name c
    { inner with toggle := inner.toggle.swap }
  | .connect k cs => ofOperands name k cs

def ofOperands (name : String) (k : Connective) : List (Condition String) → Wiring
  | [] => { toggle := { id := name } }
  | [c] => ofCondition name c
  | c :: d :: rest =>
    let a := ofCondition (name ++ "A") c
    let b := ofOperands (name ++ "B") k (d :: rest)
    { toggle := { id := name }
      declarations := a.declarations ++ b.declarations ++ Toggle.wire name k a.toggle b.toggle }

end

end Wiring

/-- What a merge needs to know besides its blocks. -/
structure Styling where
  /-- The toggles of the hooks that can apply. -/
  ids : OrderedMap String
  fallback : Fallback
  order : StyleOrder
  spacing : Spacing
  valueText : ValueText

/-- A style that is being built, and how many toggles were numbered in it. -/
structure Progress where
  style : Style := ∅
  numbered : Nat := 0

namespace Styling

/-- The condition of an override over toggles, if it can hold. -/
def resolve? (s : Styling) (condition : Condition String) : Option (Condition String) :=
  (condition.resolve s.ids.get?).normalize

def write (s : Styling) (style : Style) (name : String) (value : Json.Value) : Style :=
  if s.order.latestLast then (style.erase name).insert name value else style.insert name value

def writeAll (s : Styling) (style : Style) (entries : List (String × Json.Value)) : Style :=
  entries.foldl (fun style entry => s.write style entry.1 entry.2) style

def declare (s : Styling) (style : Style) (declarations : List Declaration) : Style :=
  s.writeAll style
    (declarations.map fun d => (d.channel.property, .string (d.signal.text s.spacing)))

/-- What a property is where an override does not apply. -/
def fallbackText (s : Styling) (style : Style) (property : String) : String :=
  ((style.get? property).bind (s.valueText property)).getD s.fallback.keyword

/-- The first text where the toggle is on, the second where it is off. -/
def choice (s : Styling) (t : Toggle) (text fallback : String) : String :=
  (t.channel true).referenceOr s.spacing text ++ s.spacing.space ++
    (t.channel false).referenceOr s.spacing fallback

/-- A value without text leaves its property alone. -/
def overrideProperty (s : Styling) (t : Toggle) (style : Style) (entry : String × Json.Value) :
    Style :=
  match s.valueText entry.1 entry.2 with
  | none => style
  | some text =>
    s.write style entry.1 (.string (s.choice t text (s.fallbackText style entry.1)))

def overrideAll (s : Styling) (t : Toggle) (style : Style) (properties : Style) : Style :=
  properties.entries.foldl (s.overrideProperty t) style

/-- A single hook is read off its own toggle; every other condition takes the next number. -/
def applyOverride (s : Styling) (progress : Progress) (o : Override) : Progress :=
  match s.resolve? o.condition with
  | none => progress
  | some condition =>
    let wiring := Wiring.ofCondition (Identifier.numbered progress.numbered) condition
    { style :=
        s.overrideAll wiring.toggle (s.declare progress.style wiring.declarations) o.properties
      numbered := if condition.isAtom then progress.numbered else progress.numbered + 1 }

def apply (s : Styling) (progress : Progress) : Change → Progress
  | .set properties => { progress with style := s.writeAll progress.style properties.entries }
  | .override o => s.applyOverride progress o

def changes (s : Styling) (blocks : List Block) : List Change :=
  Change.ofBlocks s.order.overridesLast blocks

def merge (s : Styling) (blocks : List Block) : Style :=
  ((s.changes blocks).foldl s.apply {}).style

/-- What is recorded of an override does not depend on the style it is applied to. -/
def overrideEvents (s : Styling) (o : Override) : List Event :=
  ((o.condition.atoms.filter fun name => (s.ids.get? name).isNone).map Event.hookMissing) ++
    match s.resolve? o.condition with
    | none => [.overrideOmitted o.properties.size]
    | some _ =>
      (o.properties.entries.filter fun entry => (s.valueText entry.1 entry.2).isNone).map
        fun entry => .valueOmitted entry.1

def changeEvents (s : Styling) : Change → List Event
  | .set _ => []
  | .override o => s.overrideEvents o

def events (s : Styling) (blocks : List Block) : List Event :=
  (s.changes blocks).flatMap s.changeEvents

end Styling

end ConditionalStyles
