import ConditionalStyles.Sheet
import ConditionalStyles.Style

/-!
Registries: configurations made ready for use. Every hook that can apply has a toggle; the style
sheet is compiled when it is first asked for and kept.
-/
namespace ConditionalStyles

/-- A hook with its toggle and its normal form. -/
structure Hook where
  name : String
  id : String
  condition : Condition Scope
  deriving DecidableEq, Repr

def Hook.ofEntry? (config : Configuration) (entry : String × Condition Scope) : Option Hook :=
  entry.2.normalize.map fun condition => ⟨entry.1, config.toggleId entry.1 entry.2, condition⟩

structure Registry where
  hooks : List Hook
  fallback : Fallback
  order : StyleOrder
  spacing : Spacing
  valueText : ValueText
  /-- The style sheet, once it has been asked for. -/
  compiled : Option String := none

namespace Registry

def create (config : Configuration) (valueText : ValueText) : Registry :=
  { hooks := config.hooks.entries.filterMap (Hook.ofEntry? config)
    fallback := config.fallback
    order := config.order
    spacing := config.spacing
    valueText }

def createEvents (config : Configuration) (registry : Registry) : List Event :=
  ((config.hooks.entries.filter fun entry => entry.2.normalize.isNone).map fun entry =>
      Event.hookOmitted entry.1) ++
    [.hooksCreated registry.hooks.length config.hooks.size]

def names (r : Registry) : List (String × String) := r.hooks.map fun hook => (hook.name, hook.id)

def ids (r : Registry) : OrderedMap String := .ofList r.names

def id? (r : Registry) (name : String) : Option String := r.ids.get? name

def sheet (r : Registry) : Sheet :=
  .ofHooks (r.hooks.map fun hook => (hook.id, hook.condition))

/-- The text of the style sheet, and the registry that keeps it. -/
def styleSheet (r : Registry) : String × Registry :=
  match r.compiled with
  | some text => (text, r)
  | none => (r.sheet.text r.spacing, { r with compiled := some (r.sheet.text r.spacing) })

def styleSheetEvents (r : Registry) : List Event :=
  match r.compiled with
  | some _ => []
  | none => [.sheetCompiled r.sheet.rules.length (r.sheet.text r.spacing).utf8ByteSize]

def styling (r : Registry) : Styling :=
  { ids := r.ids
    fallback := r.fallback
    order := r.order
    spacing := r.spacing
    valueText := r.valueText }

def css (r : Registry) (blocks : List Block) : Style := r.styling.merge blocks

end Registry

end ConditionalStyles
