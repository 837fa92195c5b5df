import ConditionalStyles.Configuration.Reader
import ConditionalStyles.Registry

/-!
Sessions: a configuration that is built up step by step, and the registry last created from it. A
registry is made from a copy, so later changes of the configuration do not reach it.
-/
namespace ConditionalStyles

structure Session where
  config : Configuration := {}
  registry : Option Registry := none

namespace Session

inductive Step where
  | reset
  | load (text : String)
  | hook (name : String) (definition : Condition Scope)
  | scopeHook (name source : String)
  | fallback (fallback : Fallback)
  | readable (wanted : Bool)
  | order (order : StyleOrder)
  | naming (f : Option (String → String))
  | create (valueText : ValueText)
  | names
  | id (name : String)
  | styleSheet
  | css (blocks : List Block)

inductive Answer where
  | config (config : Configuration)
  | names (ids : List (String × String))
  | id (id : Option String)
  | styleSheet (text : String)
  | style (style : Style)
  | failed (error : Error)
  /-- No registry has been created yet. -/
  | noRegistry

structure Outcome where
  session : Session
  answer : Answer
  events : List Event := []

/-- The configuration changes, unless the change fails. -/
def configure (s : Session) : Except Error Configuration → Outcome
  | .ok config => { session := { s with config }, answer := .config config }
  | .error error => { session := s, answer := .failed error }

def withRegistry (s : Session) (use : Registry → Outcome) : Outcome :=
  match s.registry with
  | some registry => use registry
  | none => { session := s, answer := .noRegistry }

def step (s : Session) : Step → Outcome
  | .reset => s.configure (.ok {})
  | .load text => s.configure (Configuration.load text)
  | .hook name definition => s.configure (.ok (s.config.hook name definition))
  | .scopeHook name source => s.configure (s.config.scopeHook name source)
  | .fallback fallback => s.configure (.ok { s.config with fallback })
  | .readable wanted => s.configure (.ok { s.config with readable := wanted })
  | .order order => s.configure (.ok { s.config with order })
  | .naming f => s.configure (.ok { s.config with naming := f })
  | .create valueText =>
    let registry := Registry.create s.config valueText
    { session := { s with registry := some registry }
      answer := .names registry.names
      events := registry.createEvents s.config }
  | .names => s.withRegistry fun r => { session := s, answer := .names r.names }
  | .id name => s.withRegistry fun r => { session := s, answer := .id (r.id? name) }
  | .styleSheet =>
    s.withRegistry fun r =>
      { session := { s with registry := some r.styleSheet.2 }
        answer := .styleSheet r.styleSheet.1
        events := r.styleSheetEvents }
  | .css blocks =>
    s.withRegistry fun r =>
      { session := s
        answer := .style (r.css blocks)
        events := r.styling.events blocks }

end Session

end ConditionalStyles
