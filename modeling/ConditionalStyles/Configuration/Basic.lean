import ConditionalStyles.Identifier
import ConditionalStyles.OrderedMap
import ConditionalStyles.Toggle

/-!
Configurations: the declared hooks and the options for compiling and merging.
-/
namespace ConditionalStyles

/-- What a property falls back to where no override applies and nothing was set before. -/
inductive Fallback where
  | revertLayer
  | unset
  deriving DecidableEq, Repr

namespace Fallback

def keyword : Fallback → String
  | revertLayer => "revert-layer"
  | unset => "unset"

def ofKeyword? (s : String) : Option Fallback :=
  if s = revertLayer.keyword then some revertLayer
  else if s = unset.keyword then some unset
  else none

end Fallback

/-- In which order the properties of a style are written. -/
structure StyleOrder where
  /-- A property that is written again moves to the end of the style. -/
  latestLast : Bool := true
  /-- Overrides are applied after everything else. -/
  overridesLast : Bool := false
  deriving DecidableEq, Repr

structure Configuration where
  hooks : OrderedMap (Condition Scope) := ∅
  fallback : Fallback := .unset
  /-- Texts are laid out for people. -/
  readable : Bool := false
  order : StyleOrder := {}
  /-- Names the toggle of a hook, instead of the digest of its definition. -/
  naming : Option (String → String) := none

namespace Configuration

def hook (config : Configuration) (name : String) (definition : Condition Scope) : Configuration :=
  { config with hooks := config.hooks.insert name definition }

def toggleId (config : Configuration) (name : String) (definition : Condition Scope) : String :=
  match config.naming with
  | some f => f name
  | none => Identifier.ofHook config.readable name definition

def spacing (config : Configuration) : Spacing := .ofReadable config.readable

end Configuration

end ConditionalStyles
