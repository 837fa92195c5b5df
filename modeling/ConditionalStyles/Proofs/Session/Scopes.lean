import ConditionalStyles.Proofs.Configuration.Parsed
import ConditionalStyles.Session

/-!
Scopes and where they come from. A text is a scope if it starts as a group rule or has a place for
the styled element. However a configuration came about, by declarations and by documents in any
sequence of steps, its scopes were made from texts of this kind, and a step that fails changes
nothing.
-/
namespace ConditionalStyles

namespace Scope

/-- The text starts with the name of a group rule and a blank. -/
def StartsGroupRule (s : String) : Prop :=
  ∃ name ∈ ["media", "container", "supports"], ∃ blank ∈ [' ', '\t', '\r', '\n'],
    ∃ rest : List Char, s.toList = '@' :: (name.toList ++ blank :: rest)

theorem isBlank_iff {c : Char} :
    Json.Reader.isBlank c = true ↔ c ∈ [' ', '\t', '\r', '\n'] := by
  simp only [Json.Reader.isBlank, Bool.or_eq_true, decide_eq_true_eq, List.mem_cons,
    List.not_mem_nil, or_false]
  tauto

theorem startsGroupRule_iff {s : String} :
    startsGroupRule s.toList = true ↔ StartsGroupRule s := by
  constructor
  · intro h
    unfold startsGroupRule at h
    split at h
    · next rest hs =>
      obtain ⟨name, hname, htest⟩ := List.any_eq_true.mp h
      rw [Bool.and_eq_true, List.isPrefixOf_iff_prefix] at htest
      obtain ⟨⟨after, rfl⟩, hblank⟩ := htest
      rw [← String.length_toList, List.drop_left] at hblank
      cases after with
      | nil => cases hblank
      | cons blank rest => exact ⟨name, hname, blank, isBlank_iff.mp hblank, rest, hs⟩
    · cases h
  · rintro ⟨name, hname, blank, hblank, rest, hs⟩
    rw [hs]
    refine List.any_eq_true.mpr ⟨name, hname, ?_⟩
    rw [Bool.and_eq_true, List.isPrefixOf_iff_prefix, ← String.length_toList, List.drop_left]
    exact ⟨List.prefix_append _ _, isBlank_iff.mpr hblank⟩

/-- A text is a group rule, a selector or no scope at all. -/
theorem ofString?_cases (s : String) :
    StartsGroupRule s ∧ ofString? s = some (atRule s) ∨
      ¬ StartsGroupRule s ∧ '&' ∈ s.toList ∧ ofString? s = some (selector s) ∨
      ¬ StartsGroupRule s ∧ '&' ∉ s.toList ∧ ofString? s = none := by
  rw [← startsGroupRule_iff, ← List.contains_iff_mem, ofString?]
  split
  · next hrule => exact Or.inl ⟨hrule, rfl⟩
  · next hrule =>
    split
    · next hplace => exact Or.inr (Or.inl ⟨hrule, hplace, rfl⟩)
    · next hplace => exact Or.inr (Or.inr ⟨hrule, hplace, rfl⟩)

end Scope

open Json Json.Reader

/-- How a scope can be had: made from a text, or decoded from a document, where it may stand alone
or in a condition. -/
inductive Scope.Obtained : Scope → Prop
  | parsed {s : String} {scope : Scope} (h : ofString? s = some scope) : Obtained scope
  | decoded {text : String} {scope : Scope} (h : read text = .ok scope) : Obtained scope
  | within {text : String} {c : Condition Scope} {scope : Scope}
      (h : Condition.read ofJson? text = .ok c) (hscope : scope ∈ c.atoms) : Obtained scope

theorem Scope.ensures_read :
    (do
      let s ← Reader.string
      match ofString? s with
      | some scope => return scope
      | none => Reader.fail (.mismatch (.noScope s)) : Reader Scope).Ensures Parsed := by
  refine ensures_bind fun s => ?_
  split
  · next scope hscope => exact ensures_pure ⟨s, hscope⟩
  · exact ensures_fail _

theorem Scope.Obtained.isParsed {scope : Scope} (h : scope.Obtained) : scope.Parsed := by
  cases h with
  | parsed h => exact ⟨_, h⟩
  | decoded h => exact ensures_read.run h
  | within h hscope => exact (Condition.ensures_reader _).run h scope hscope

namespace Session

/-- The session after some steps, one after the other. -/
def after (s : Session) (steps : List Step) : Session :=
  steps.foldl (fun s step => (s.step step).session) s

/-- A definition that is declared has scopes that can be had. -/
def Step.Obtained : Step → Prop
  | .hook _ definition => ∀ scope ∈ definition.atoms, scope.Obtained
  | _ => True

variable {s : Session}

/-- Without a registry nothing is done. -/
theorem withRegistry_cases (s : Session) (use : Registry → Outcome) :
    (∃ r, s.withRegistry use = use r) ∨
      s.withRegistry use = { session := s, answer := .noRegistry } := by
  unfold withRegistry
  split
  · next r _ => exact Or.inl ⟨r, rfl⟩
  · exact Or.inr rfl

theorem session_of_configure_failed {result : Except Error Configuration} {error : Error}
    (h : (s.configure result).answer = .failed error) : (s.configure result).session = s := by
  cases result with
  | ok config => cases h
  | error _ => rfl

theorem parsed_step (h : Configuration.Parsed s.config.hooks) {step : Step}
    (hstep : step.Obtained) : Configuration.Parsed (s.step step).session.config.hooks := by
  cases step with
  | reset => exact Configuration.parsed_empty
  | load text =>
    rw [Session.step]
    cases hload : Configuration.load text with
    | error error => exact h
    | ok config => exact Configuration.parsed_load hload
  | hook name definition =>
    exact h.insert name fun scope hscope => (hstep scope hscope).isParsed
  | scopeHook name source =>
    rw [Session.step, Configuration.scopeHook]
    cases hscope : Scope.ofString? source with
    | none => exact h
    | some scope =>
      refine h.insert name fun other hother => ?_
      obtain rfl := List.mem_singleton.mp hother
      exact ⟨source, hscope⟩
  | fallback | readable | order | naming | create => exact h
  | names | id | styleSheet | css =>
    rw [Session.step]
    rcases withRegistry_cases s _ with ⟨r, hr⟩ | hnone
    · rw [hr]
      exact h
    · rw [hnone]
      exact h

theorem parsed_after (h : Configuration.Parsed s.config.hooks) {steps : List Step}
    (hsteps : ∀ step ∈ steps, step.Obtained) :
    Configuration.Parsed (s.after steps).config.hooks := by
  induction steps generalizing s with
  | nil => exact h
  | cons step rest ih =>
    rw [List.forall_mem_cons] at hsteps
    exact ih (parsed_step h hsteps.1) hsteps.2

/-- A step that fails leaves the session as it was. -/
theorem session_of_failed {step : Step} {error : Error}
    (h : (s.step step).answer = .failed error) : (s.step step).session = s := by
  cases step with
  | load text => exact session_of_configure_failed h
  | scopeHook name source => exact session_of_configure_failed h
  | reset | hook | fallback | readable | order | naming | create => cases h
  | names | id | styleSheet | css =>
    rw [Session.step] at h ⊢
    rcases withRegistry_cases s _ with ⟨r, hr⟩ | hnone
    · rw [hr] at h
      cases h
    · rw [hnone] at h
      cases h

/-- A text is a group rule exactly if it starts as one, a selector if it does not and has a place
for the styled element, and invalid otherwise. Each scope of each hook, after any steps from an
empty session, is what its own source says; and a step that fails leaves the session as it was. -/
theorem scopes_stay_in_grammar :
    (∀ source : String,
      (Scope.ofString? source = some (.atRule source) ↔ Scope.StartsGroupRule source) ∧
      (Scope.ofString? source = some (.selector source) ↔
        ¬ Scope.StartsGroupRule source ∧ '&' ∈ source.toList) ∧
      (Scope.ofString? source = none ↔
        ¬ Scope.StartsGroupRule source ∧ '&' ∉ source.toList) ∧
      ∀ (config : Configuration) (name : String),
        config.scopeHook name source = .error (.invalidScope source) ↔
          ¬ Scope.StartsGroupRule source ∧ '&' ∉ source.toList) ∧
    (∀ steps : List Step, (∀ step ∈ steps, step.Obtained) → ∀ name definition,
      (after {} steps).config.hooks.get? name = some definition →
        ∀ scope ∈ definition.atoms, Scope.ofString? scope.source = some scope) ∧
    ∀ (s : Session) (step : Step) (error : Error),
      (s.step step).answer = .failed error → (s.step step).session = s := by
  refine ⟨fun source => ?_, fun steps hsteps name definition hget scope hscope => ?_,
    fun s step error => session_of_failed⟩
  · rcases Scope.ofString?_cases source with ⟨hrule, heq⟩ | ⟨hrule, hplace, heq⟩ |
      ⟨hrule, hplace, heq⟩
    · simp [Configuration.scopeHook, heq, hrule]
    · simp [Configuration.scopeHook, heq, hrule, hplace]
    · simp [Configuration.scopeHook, heq, hrule, hplace]
  · have hparsed := parsed_after (s := {}) Configuration.parsed_empty hsteps
    exact (hparsed name definition hget scope hscope).ofString?_source

/-- A hook is declared and decoded ones are added. Two steps fail in between: a document whose
second hook is no scope, and a source that is none. -/
theorem scopes_stay_in_grammar_across_failures :
    let decoded : Condition Scope := .not (.any [.atom (.selector "&:focus")])
    let document := "\x7b\"hooks\":\x7b\"a\":\"&\",\"b\":\"@layer x\"\x7d\x7d"
    let steps : List Step := [
      .scopeHook "dark" "@media\tprint", .load document, .hook "focus" decoded,
      .scopeHook "bare" ":hover"]
    let hooks := (after {} steps).config.hooks
    hooks.get? "dark" = some (.atom (.atRule "@media\tprint")) ∧ hooks.get? "a" = none ∧
      hooks.get? "focus" = some decoded ∧ hooks.names = ["dark", "focus"] ∧
      Scope.ofString? (Scope.atRule "@media\tprint").source = some (.atRule "@media\tprint") ∧
      (∀ scope ∈ decoded.atoms, Scope.ofString? scope.source = some scope) ∧
      ((after {} steps).step (.scopeHook "bare" ":hover")).session = after {} steps := by
  intro decoded document steps hooks
  have hread : Condition.read Scope.ofJson? decoded.encodeScopes = .ok decoded := by
    decide +kernel
  have hsteps : ∀ step ∈ steps, step.Obtained := by
    intro step hstep
    simp only [steps, List.mem_cons, List.not_mem_nil, or_false] at hstep
    rcases hstep with rfl | rfl | rfl | rfl
    · trivial
    · trivial
    · exact fun scope hscope => .within hread hscope
    · trivial
  have hdark : hooks.get? "dark" = some (.atom (.atRule "@media\tprint")) := by decide +kernel
  have hfocus : hooks.get? "focus" = some decoded := by decide +kernel
  have hgrammar := scopes_stay_in_grammar.2.1 steps hsteps
  have hfailed : ((after {} steps).step (.scopeHook "bare" ":hover")).answer =
      .failed (.invalidScope ":hover") := rfl
  exact ⟨hdark, by decide +kernel, hfocus, by decide +kernel,
    hgrammar "dark" _ hdark _ (List.mem_singleton_self _), hgrammar "focus" _ hfocus,
    scopes_stay_in_grammar.2.2 _ _ _ hfailed⟩

end Session

end ConditionalStyles
