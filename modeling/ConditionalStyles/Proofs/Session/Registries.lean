import ConditionalStyles.Proofs.Session.Scopes
import ConditionalStyles.Proofs.Style.LocalToggles

/-!
Registries in sessions. A registry answers as one that has just been made from the configuration of
its creation would, whatever was asked of it and whatever became of the configuration since: the
style sheet that it keeps is the one it would compile again, and a merge leaves nothing behind. It
compiles its style sheet when it is first asked, and never again.
-/
namespace ConditionalStyles

/-- The record of a style sheet being compiled. -/
def Event.isCompilation : Event → Bool
  | sheetCompiled _ _ => true
  | _ => false

namespace Configuration

/-- The hooks with an atom, compiled from their normal forms. -/
def sheet (config : Configuration) : Sheet :=
  .ofHooks (config.hooks.entries.filterMap fun entry =>
    entry.2.normalize.map fun c => (config.toggleId entry.1 entry.2, c))

def sheetText (config : Configuration) : String := config.sheet.text config.spacing

/-- What is recorded when the style sheet is compiled. -/
def compilation (config : Configuration) : Event :=
  .sheetCompiled config.sheet.rules.length config.sheetText.utf8ByteSize

end Configuration

namespace Styling

/-- The toggles that the style has for compounds are numbered by overrides of these blocks, from the
start. -/
def NumbersAnew (s : Styling) (blocks : List Block) (style : Style) : Prop :=
  (∀ change ∈ s.changes blocks, ∀ name ∈ change.properties.names, ¬ IsLocalChannel name) →
    ∀ name ∈ style.names, IsLocalChannel name →
      ∃ n < (s.changes blocks).countP s.takesNumber,
        Cascade.IsChannelBelow (Identifier.numbered n) name

theorem numbersAnew_merge (s : Styling) (blocks : List Block) :
    s.NumbersAnew blocks (s.merge blocks) := by
  intro hnames name hmem hlocal
  obtain ⟨node, hnode, on, rfl⟩ := (mem_names_run_iff hnames name).mp ⟨hmem, hlocal⟩
  obtain ⟨n, hn, hbelow⟩ := below_of_mem_localCompounds hnode
  exact ⟨n, hn, node.channel on, hbelow, rfl⟩

/-- A merge compiles nothing. -/
theorem filter_events (s : Styling) (blocks : List Block) :
    (s.events blocks).filter Event.isCompilation = [] := by
  rw [List.filter_eq_nil_iff]
  intro event hevent
  obtain ⟨change, -, hevent⟩ := List.mem_flatMap.mp hevent
  cases change with
  | set properties => cases hevent
  | override o =>
    rw [changeEvents, overrideEvents, List.mem_append] at hevent
    rcases hevent with hevent | hevent
    · obtain ⟨name, -, rfl⟩ := List.mem_map.mp hevent
      exact Bool.false_ne_true
    · cases hc : s.resolve? o.condition with
      | none =>
        rw [hc] at hevent
        obtain rfl := List.mem_singleton.mp hevent
        exact Bool.false_ne_true
      | some c =>
        rw [hc] at hevent
        obtain ⟨entry, -, rfl⟩ := List.mem_map.mp hevent
        exact Bool.false_ne_true

end Styling

namespace Registry

/-- The registry of a configuration, when its style sheet has been asked for or not. -/
def used (config : Configuration) (valueText : ValueText) (asked : Bool) : Registry :=
  { create config valueText with compiled := if asked then some config.sheetText else none }

section Used

variable (config : Configuration) (valueText : ValueText) (asked : Bool)

theorem sheet_used : (used config valueText asked).sheet = config.sheet := by
  rw [sheet, Configuration.sheet]
  congr 1
  rw [used, create, List.map_filterMap]
  congr 1
  funext entry
  rw [Hook.ofEntry?, Option.map_map]
  rfl

theorem text_used : (used config valueText asked).sheet.text config.spacing = config.sheetText := by
  rw [sheet_used, Configuration.sheetText]

/-- Whether it was kept or is compiled now, the style sheet is that of the configuration. -/
theorem styleSheet_used :
    (used config valueText asked).styleSheet = (config.sheetText, used config valueText true) := by
  cases asked with
  | true => rfl
  | false =>
    have htext := text_used config valueText false
    have hkept :=
      congrArg (fun text => { create config valueText with compiled := some text }) htext
    exact Prod.ext htext hkept

theorem styleSheetEvents_used :
    (used config valueText asked).styleSheetEvents =
      if asked then [] else [config.compilation] := by
  cases asked with
  | true => rfl
  | false =>
    rw [Configuration.compilation, ← text_used config valueText false,
      ← sheet_used config valueText false]
    rfl

end Used

theorem filter_createEvents (config : Configuration) (registry : Registry) :
    (createEvents config registry).filter Event.isCompilation = [] := by
  rw [List.filter_eq_nil_iff]
  intro event hevent
  rcases List.mem_append.mp hevent with hevent | hevent
  · obtain ⟨entry, -, rfl⟩ := List.mem_map.mp hevent
    exact Bool.false_ne_true
  · obtain rfl := List.mem_singleton.mp hevent
    exact Bool.false_ne_true

end Registry

namespace Session

namespace Step

def creates : Step → Bool
  | create _ => true
  | _ => false

/-- The step is a question to the registry. -/
def asks : Step → Bool
  | names | id _ | styleSheet | css _ => true
  | _ => false

def asksSheet : Step → Bool
  | styleSheet => true
  | _ => false

/-- What a step makes of the configuration. One that fails leaves it as it is, and so do those that
make or use a registry. -/
def edit (config : Configuration) : Step → Configuration
  | .reset => {}
  | .load text => (Configuration.load text).toOption.getD config
  | .hook name definition => config.hook name definition
  | .scopeHook name source => (config.scopeHook name source).toOption.getD config
  | .fallback wanted => { config with fallback := wanted }
  | .readable wanted => { config with readable := wanted }
  | .order wanted => { config with order := wanted }
  | .naming f => { config with naming := f }
  | .create _ | .names | .id _ | .styleSheet | .css _ => config

end Step

/-- The configuration that some steps make, from an empty one. -/
def configured (steps : List Step) : Configuration := steps.foldl Step.edit {}

/-- What is recorded during some steps. -/
def eventsDuring (s : Session) : List Step → List Event
  | [] => []
  | step :: rest => (s.step step).events ++ eventsDuring (s.step step).session rest

/-- The style sheets that are compiled during some steps. -/
def compilations (s : Session) (steps : List Step) : List Event :=
  (s.eventsDuring steps).filter Event.isCompilation

/-- The session answers as if its registry had just been made from the configuration. -/
structure AnswersAfresh (s : Session) (config : Configuration) (valueText : ValueText) : Prop where
  styleSheet : (s.step .styleSheet).answer = .styleSheet config.sheetText
  names : (s.step .names).answer = .names (Registry.create config valueText).names
  id : ∀ name, (s.step (.id name)).answer = .id ((Registry.create config valueText).id? name)
  css : ∀ blocks,
    (s.step (.css blocks)).answer = .style ((Registry.create config valueText).css blocks)
  numbered : ∀ blocks style, (s.step (.css blocks)).answer = .style style →
    (Registry.create config valueText).styling.NumbersAnew blocks style

variable {s : Session} {config : Configuration} {valueText : ValueText} {asked : Bool}

section Configuring

variable (s : Session) (result : Except Error Configuration)

theorem config_configure :
    (s.configure result).session.config = result.toOption.getD s.config := by
  cases result <;> rfl

theorem registry_configure : (s.configure result).session.registry = s.registry := by
  cases result <;> rfl

theorem events_configure : (s.configure result).events = [] := by
  cases result <;> rfl

end Configuring

theorem config_step (s : Session) (step : Step) :
    (s.step step).session.config = step.edit s.config := by
  cases step with
  | load text => exact config_configure s _
  | scopeHook name source => exact config_configure s _
  | reset | hook | fallback | readable | order | naming | create => rfl
  | names | id | styleSheet | css =>
    rw [Session.step]
    rcases withRegistry_cases s _ with ⟨r, hr⟩ | hnone
    · rw [hr]
      rfl
    · rw [hnone]
      rfl

theorem config_after (s : Session) (steps : List Step) :
    (s.after steps).config = steps.foldl Step.edit s.config := by
  induction steps generalizing s with
  | nil => rfl
  | cons step rest ih =>
    rw [List.foldl_cons, ← config_step]
    exact ih _

theorem withRegistry_of_some {r : Registry} (h : s.registry = some r) (use : Registry → Outcome) :
    s.withRegistry use = use r := by
  rw [withRegistry, h]

/-- A step that makes no registry leaves the one that is there as it is, except that it may ask for
the style sheet; it is compiled if that was not done before. -/
theorem registry_step (h : s.registry = some (.used config valueText asked)) {step : Step}
    (hstep : step.creates = false) :
    (s.step step).session.registry =
        some (.used config valueText (asked || step.asksSheet)) ∧
      (s.step step).events.filter Event.isCompilation =
        if !asked && step.asksSheet then [config.compilation] else [] := by
  cases step with
  | create => cases hstep
  | reset | load | hook | scopeHook | fallback | readable | order | naming =>
    simp [Session.step, registry_configure, events_configure, h, Step.asksSheet]
  | names | id => simp [Session.step, withRegistry_of_some h, h, Step.asksSheet]
  | css blocks =>
    simp [Session.step, withRegistry_of_some h, h, Step.asksSheet, Styling.filter_events]
  | styleSheet =>
    rw [Session.step, withRegistry_of_some h, Registry.styleSheet_used,
      Registry.styleSheetEvents_used]
    cases asked <;> exact ⟨rfl, rfl⟩

theorem compilations_cons (s : Session) (step : Step) (rest : List Step) :
    s.compilations (step :: rest) =
      (s.step step).events.filter Event.isCompilation ++
        (s.step step).session.compilations rest := by
  rw [compilations, eventsDuring, List.filter_append]
  rfl

/-- Through any steps that make no registry the one that is there stays, and its style sheet is
compiled once if it is asked for. -/
theorem registry_after (h : s.registry = some (.used config valueText asked)) {steps : List Step}
    (hsteps : ∀ step ∈ steps, step.creates = false) :
    (s.after steps).registry =
        some (.used config valueText (asked || steps.any Step.asksSheet)) ∧
      s.compilations steps =
        if !asked && steps.any Step.asksSheet then [config.compilation] else [] := by
  -- All that changes in the registry is whether its style sheet was asked for.
  induction steps generalizing s asked with
  | nil =>
    rw [List.any_nil, Bool.or_false, Bool.and_false]
    exact ⟨h, rfl⟩
  | cons step rest ih =>
    rw [List.forall_mem_cons] at hsteps
    obtain ⟨hregistry, hevents⟩ := registry_step h hsteps.1
    obtain ⟨hlater, hrest⟩ := ih hregistry hsteps.2
    rw [compilations_cons, hevents, hrest, List.any_cons, ← Bool.or_assoc]
    refine ⟨hlater, ?_⟩
    -- The record of the step and those of the rest exclude each other.
    cases asked <;> cases step.asksSheet <;> simp

/-- As long as no registry is made there is none, and nothing is compiled. -/
theorem registry_step_of_none (h : s.registry = none) {step : Step}
    (hstep : step.creates = false) :
    (s.step step).session.registry = none ∧
      (s.step step).events.filter Event.isCompilation = [] := by
  cases step with
  | create => cases hstep
  | reset | load | hook | scopeHook | fallback | readable | order | naming =>
    simp [Session.step, registry_configure, events_configure, h]
  | names | id | styleSheet | css => simp [Session.step, withRegistry, h]

theorem registry_after_of_none (h : s.registry = none) {steps : List Step}
    (hsteps : ∀ step ∈ steps, step.creates = false) :
    (s.after steps).registry = none ∧ s.compilations steps = [] := by
  induction steps generalizing s with
  | nil => exact ⟨h, rfl⟩
  | cons step rest ih =>
    rw [List.forall_mem_cons] at hsteps
    obtain ⟨hregistry, hevents⟩ := registry_step_of_none h hsteps.1
    obtain ⟨hlater, hrest⟩ := ih hregistry hsteps.2
    rw [compilations_cons, hevents, hrest]
    exact ⟨hlater, rfl⟩

theorem answer_of_none (h : s.registry = none) {question : Step} (hasks : question.asks = true) :
    (s.step question).answer = .noRegistry := by
  cases question with
  | names | id | styleSheet | css => rw [Session.step, withRegistry, h]
  | reset | load | hook | scopeHook | fallback | readable | order | naming | create => cases hasks

theorem answersAfresh_of_registry (h : s.registry = some (.used config valueText asked)) :
    s.AnswersAfresh config valueText where
  styleSheet := by rw [Session.step, withRegistry_of_some h, Registry.styleSheet_used]
  names := by
    rw [Session.step, withRegistry_of_some h]
    rfl
  id name := by
    rw [Session.step, withRegistry_of_some h]
    rfl
  css blocks := by
    rw [Session.step, withRegistry_of_some h]
    rfl
  numbered blocks style hanswer := by
    rw [Session.step, withRegistry_of_some h] at hanswer
    obtain rfl := Answer.style.inj hanswer
    exact Styling.numbersAnew_merge _ blocks

/-- In every run, a question to a registry is answered as by one that has just been made from the
configuration at the last creation, which is what the steps before it made of the empty one. Between
two creations the style sheet is compiled once, if it is asked for at all. -/
theorem registries_answer_afresh (steps : List Step) :
    ((∀ step ∈ steps, step.creates = false) →
      compilations {} steps = [] ∧
        ∀ question, question.asks = true →
          ((after {} steps).step question).answer = .noRegistry) ∧
    ∀ before valueText between, steps = before ++ .create valueText :: between →
      (∀ step ∈ between, step.creates = false) →
        (after {} steps).AnswersAfresh (configured before) valueText ∧
          (after {} before).compilations (.create valueText :: between) =
            if between.any Step.asksSheet then [(configured before).compilation] else [] := by
  constructor
  · intro hsteps
    obtain ⟨hnone, hcompilations⟩ := registry_after_of_none (s := {}) rfl hsteps
    exact ⟨hcompilations, fun question => answer_of_none hnone⟩
  · rintro before valueText between rfl hbetween
    have hconfig : (after {} before).config = configured before := config_after {} before
    have hcreated : ((after {} before).step (.create valueText)).session.registry =
        some (.used (configured before) valueText false) := by
      rw [← hconfig]
      rfl
    have hquiet : ((after {} before).step (.create valueText)).events.filter
        Event.isCompilation = [] := Registry.filter_createEvents _ _
    have hafter : after {} (before ++ .create valueText :: between) =
        ((after {} before).step (.create valueText)).session.after between := List.foldl_append
    obtain ⟨hregistry, hcompilations⟩ := registry_after hcreated hbetween
    rw [hafter, compilations_cons, hquiet, hcompilations]
    exact ⟨answersAfresh_of_registry hregistry, rfl⟩

/-- After the creation the hook is declared anew, a document fails to load, a merge numbers a toggle
and the style sheet is asked for twice. -/
theorem registries_answer_afresh_after_changes :
    let blocks : List Block := [{
      overrides := [⟨.all [.atom "a", .atom "a"], .ofList [("color", .string "red")]⟩] }]
    let before : List Step := [.naming (some fun name => name), .scopeHook "a" ".a &"]
    let between : List Step := [
      .styleSheet, .scopeHook "a" "&:hover", .readable true, .load "\x7b", .css blocks, .styleSheet]
    let steps := before ++ .create .generic :: between
    let text := "*\x7b--a-0:initial;--a-1: ;\x7d.a *\x7b--a-0: ;--a-1:initial;\x7d"
    ((after {} steps).step .styleSheet).answer = .styleSheet text ∧
      (∃ style, ((after {} steps).step (.css blocks)).answer = .style style ∧
        style.names = ["--cond0-0", "--cond0-1", "color"]) ∧
      (after {} before).compilations (.create .generic :: between) = [.sheetCompiled 1 53] := by
  intro blocks before between steps text
  have hbetween : ∀ step ∈ between, step.creates = false := by simp [between, Step.creates]
  obtain ⟨hafresh, hcompilations⟩ :=
    (registries_answer_afresh steps).2 before .generic between rfl hbetween
  have htext : (configured before).sheetText = text := by decide +kernel
  have hevent : (configured before).compilation = .sheetCompiled 1 53 := by decide +kernel
  refine ⟨htext ▸ hafresh.styleSheet, ⟨_, hafresh.css blocks, by decide +kernel⟩, ?_⟩
  rw [hcompilations, hevent]
  rfl

end Session

end ConditionalStyles
