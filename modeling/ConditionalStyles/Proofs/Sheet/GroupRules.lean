import ConditionalStyles.Proofs.Cascade.SheetText
import ConditionalStyles.Proofs.Session.Scopes
import Mathlib.Data.List.Forall2

/-!
Group rules in style sheets. The rule of an atom is printed as the source of its scope calls for. A
source that starts as a group rule is kept as it is, around a rule for all elements. In any other
source the places for the styled element are filled, and declarations follow at once. Whether a rule
starts with `@` does not matter for this: of the sources that do, those that do not go on as a group
rule and have a place for the styled element are printed as selectors.
-/
namespace ConditionalStyles

namespace Scope

/-- A scope that was made from a text is a group rule or a selector as its source says. -/
theorem Parsed.cases {scope : Scope} (h : scope.Parsed) :
    StartsGroupRule scope.source ∧ scope = atRule scope.source ∨
      ¬ StartsGroupRule scope.source ∧ '&' ∈ scope.source.toList ∧
        scope = selector scope.source := by
  have hsource := h.ofString?_source
  rcases ofString?_cases scope.source with ⟨hrule, heq⟩ | ⟨hrule, hplace, heq⟩ | ⟨_, _, heq⟩
  · exact Or.inl ⟨hrule, Option.some_inj.mp (hsource.symm.trans heq)⟩
  · exact Or.inr ⟨hrule, hplace, Option.some_inj.mp (hsource.symm.trans heq)⟩
  · cases hsource.symm.trans heq

/-- A place for the styled element is taken by the selector of all elements. -/
def filled (c : Char) : Char := if c = '&' then '*' else c

theorem head?_map_filled (cs : List Char) :
    (cs.map filled).head? = some '@' ↔ cs.head? = some '@' := by
  cases cs with
  | nil => rfl
  | cons c cs =>
    by_cases hplace : c = '&'
    · simp [filled, hplace]
    · simp [filled, hplace]

end Scope

namespace Sheet

open Scope

/-- A rule as it is printed. Its declarations stand in its own block or, if it is grouped, in that
of a rule for all elements inside. -/
structure PrintedRule where
  prelude : String
  grouped : Bool
  body : List Declaration
  deriving DecidableEq, Repr

namespace PrintedRule

def text (s : Spacing) (r : PrintedRule) : String :=
  if r.grouped then
    blockText s 0 r.prelude (blockText s 1 "*" (declarationsText s 2 r.body))
  else blockText s 0 r.prelude (declarationsText s 1 r.body)

/-- The rule is printed as the source of its scope calls for. -/
inductive IsFor (source : String) : PrintedRule → Prop
  | group (body : List Declaration) (h : StartsGroupRule source) : IsFor source ⟨source, true, body⟩
  | selector (prelude : String) (body : List Declaration) (h : ¬ StartsGroupRule source)
      (hplace : '&' ∈ source.toList) (hprelude : prelude.toList = source.toList.map filled) :
      IsFor source ⟨prelude, false, body⟩

/-- If the rule starts with `@`, it is the source as it was, around a rule for all elements. -/
def KeepsAtRule (source : String) (r : PrintedRule) : Prop :=
  r.prelude.toList.head? = some '@' → r.grouped = true ∧ r.prelude = source

theorem keepsAtRule_iff {source : String} {r : PrintedRule} (h : r.IsFor source) :
    r.KeepsAtRule source ↔ (source.toList.head? = some '@' → StartsGroupRule source) := by
  cases h with
  | group body hrule => exact ⟨fun _ _ => hrule, fun _ _ => ⟨rfl, rfl⟩⟩
  | selector prelude body hrule hplace hprelude =>
    -- Filling places neither makes nor takes away an `@`, and the rule is not grouped.
    have hhead : prelude.toList.head? = some '@' ↔ source.toList.head? = some '@' := by
      rw [hprelude, head?_map_filled]
    constructor
    · intro hkeeps hat
      cases (hkeeps (hhead.mpr hat)).1
    · intro hgroup hat
      exact absurd (hgroup (hhead.mp hat)) hrule

end PrintedRule

/-- Group rules are grouped, and selectors are not. -/
def printed (r : Rule) : PrintedRule :=
  match r.scope with
  | .selector _ => ⟨r.scope.universal, false, r.body⟩
  | .atRule prelude => ⟨prelude, true, r.body⟩

theorem text_printed (s : Spacing) (r : Rule) : (printed r).text s = ruleText s r := by
  obtain ⟨scope, body⟩ := r
  cases scope <;> rfl

theorem isFor_printed {r : Rule} (h : r.scope.Parsed) : (printed r).IsFor r.scope.source := by
  obtain ⟨scope, body⟩ := r
  cases scope with
  | atRule source =>
    rcases h.cases with ⟨hrule, -⟩ | ⟨-, -, hscope⟩
    · exact PrintedRule.IsFor.group body hrule
    · cases hscope
  | selector source =>
    rcases h.cases with ⟨-, hscope⟩ | ⟨hrule, hplace, -⟩
    · cases hscope
    · have hprelude : (universal (.selector source)).toList = source.toList.map filled :=
        String.toList_ofList
      exact PrintedRule.IsFor.selector _ body hrule hplace hprelude

mutual

/-- The rules are those of the atoms, from left to right. -/
theorem map_scope_ofCondition (id : String) (negated : Bool) :
    (c : Condition Scope) → (ofCondition id negated c).rules.map Rule.scope = c.atoms
  | .atom _ => rfl
  | .not c => map_scope_ofCondition id (!negated) c
  | .connect k cs => map_scope_ofOperands id negated k cs

theorem map_scope_ofOperands (id : String) (negated : Bool) (k : Connective) :
    (cs : List (Condition Scope)) →
      (ofOperands id negated k cs).rules.map Rule.scope = Condition.atomsList cs
  | [] => rfl
  | [c] => by
    rw [ofOperands, map_scope_ofCondition id negated c, Condition.atomsList, Condition.atomsList,
      List.append_nil]
  | c :: d :: rest => by
    have hrules : (ofOperands id negated k (c :: d :: rest)).rules =
        (ofCondition (id ++ "A") negated c).rules ++
          (ofOperands (id ++ "B") negated k (d :: rest)).rules ++ [] := rfl
    rw [hrules, List.append_nil, List.map_append, map_scope_ofCondition (id ++ "A") negated c,
      map_scope_ofOperands (id ++ "B") negated k (d :: rest)]
    rfl

end

theorem map_scope_ofHooks (hooks : List (String × Condition Scope)) :
    (ofHooks hooks).rules.map Rule.scope = hooks.flatMap fun hook => hook.2.atoms := by
  induction hooks with
  | nil => rfl
  | cons hook hooks ih =>
    have hrules : (ofHooks (hook :: hooks)).rules =
        (ofCondition hook.1 false hook.2).rules ++ (ofHooks hooks).rules := rfl
    rw [hrules, List.map_append, map_scope_ofCondition, ih, List.flatMap_cons]

/-- What holds of the scopes of all rules holds of all atoms. -/
theorem forall_scope_iff {hooks : List (String × Condition Scope)} {P : Scope → Prop} :
    (∀ r ∈ (ofHooks hooks).rules, P r.scope) ↔ ∀ hook ∈ hooks, ∀ scope ∈ hook.2.atoms, P scope := by
  rw [← List.forall_mem_map (f := Rule.scope), map_scope_ofHooks, List.forall_mem_flatMap]

/-- Atoms and printed rules are compared rule by rule. -/
theorem forall₂_printed_iff {hooks : List (String × Condition Scope)}
    {P : Scope → PrintedRule → Prop} :
    List.Forall₂ P (hooks.flatMap fun hook => hook.2.atoms) ((ofHooks hooks).rules.map printed) ↔
      ∀ r ∈ (ofHooks hooks).rules, P r.scope (printed r) := by
  rw [← map_scope_ofHooks, List.forall₂_map_left_iff, List.forall₂_map_right_iff,
    List.forall₂_same]

/-- A text that starts with `@` is a group rule or invalid, unless it does not go on as a group rule
and has a place for the styled element. The rules of a style sheet are printed as the sources of its
atoms call for, one by one; so all that start with `@` are kept, each around a rule for all
elements, exactly if every source that starts with `@` starts a group rule. -/
theorem at_rules_are_kept_iff (hooks : List (String × Condition Scope))
    (hparsed : ∀ hook ∈ hooks, hook.2.Parsed) (s : Spacing) :
    (∀ source : String, source.toList.head? = some '@' →
      ((ofString? source = some (.atRule source) ∨ ofString? source = none) ↔
        (StartsGroupRule source ∨ '&' ∉ source.toList))) ∧
    ∃ rules : List PrintedRule,
      (ofHooks hooks).text s =
        blockText s 0 "*" (declarationsText s 1 (ofHooks hooks).root) ++
          String.join (rules.map (PrintedRule.text s)) ∧
      List.Forall₂ (fun scope rule => rule.IsFor scope.source)
        (hooks.flatMap fun hook => hook.2.atoms) rules ∧
      (List.Forall₂ (fun scope rule => rule.KeepsAtRule scope.source)
          (hooks.flatMap fun hook => hook.2.atoms) rules ↔
        ∀ hook ∈ hooks, ∀ scope ∈ hook.2.atoms,
          scope.source.toList.head? = some '@' → StartsGroupRule scope.source) := by
  have hscopes : ∀ r ∈ (ofHooks hooks).rules, r.scope.Parsed := forall_scope_iff.mpr hparsed
  refine ⟨fun source _ => ?_, (ofHooks hooks).rules.map printed, ?_, ?_, ?_⟩
  · rcases ofString?_cases source with ⟨hrule, heq⟩ | ⟨hrule, hplace, heq⟩ | ⟨hrule, hplace, heq⟩
    · simp [heq, hrule]
    · simp [heq, hrule, hplace]
    · simp [heq, hplace]
  · have hrules : (PrintedRule.text s ∘ printed) = ruleText s := funext (text_printed s)
    rw [List.map_map, hrules]
    rfl
  · exact forall₂_printed_iff.mpr fun r hr => isFor_printed (hscopes r hr)
  · rw [forall₂_printed_iff, ← forall_scope_iff]
    exact forall₂_congr fun r hr => PrintedRule.keepsAtRule_iff (isFor_printed (hscopes r hr))

/-- A place for the styled element inside a group rule is left alone, beside a selector in which two
are filled. -/
theorem at_rules_are_kept_with_place :
    let rule := "@supports selector(&)"
    let hooks : List (String × Condition Scope) :=
      [("x", .not (.atom (.atRule rule))), ("y", .all [.atom (.selector "& > &:hover")])]
    ofString? rule = some (.atRule rule) ∧
      ∃ rules : List PrintedRule,
        (ofHooks hooks).text .compact =
          blockText .compact 0 "*" (declarationsText .compact 1 (ofHooks hooks).root) ++
            String.join (rules.map (PrintedRule.text .compact)) ∧
        List.Forall₂ (fun (scope : Scope) rule => rule.KeepsAtRule scope.source)
          [.atRule rule, .selector "& > &:hover"] rules := by
  intro rule hooks
  have hparsed : ∀ hook ∈ hooks, hook.2.Parsed := by
    simp only [hooks, List.forall_mem_cons, List.not_mem_nil, false_imp_iff, implies_true, and_true]
    refine ⟨?_, ?_⟩
    · intro scope hscope
      obtain rfl := List.mem_singleton.mp hscope
      exact ⟨rule, by decide +kernel⟩
    · intro scope hscope
      obtain rfl := List.mem_singleton.mp hscope
      exact ⟨"& > &:hover", by decide +kernel⟩
  have hstarts : ∀ hook ∈ hooks, ∀ scope ∈ hook.2.atoms,
      scope.source.toList.head? = some '@' → StartsGroupRule scope.source := by
    simp only [← startsGroupRule_iff]
    decide +kernel
  obtain ⟨hclass, rules, htext, -, hkept⟩ := at_rules_are_kept_iff hooks hparsed .compact
  refine ⟨?_, rules, htext, hkept.mpr hstarts⟩
  have hrule : StartsGroupRule rule := startsGroupRule_iff.mp (by decide +kernel)
  rcases (hclass rule (by decide +kernel)).mpr (Or.inl hrule) with heq | heq
  · exact heq
  · exact absurd heq (by decide +kernel)

/-- Without a blank after the name, a rule with a place for the styled element is taken for a
selector: the place is filled and the declarations stand in the block of the rule, where no reader
expects them. The same goes for the names of other rules. -/
theorem unspaced_rule_is_not_kept :
    let rule := "@supports(selector(&))"
    let sheet := "*\x7b--x-0:initial;--x-1: ;\x7d@supports(selector(*))\x7b--x-0: ;--x-1:initial;\x7d"
    ofString? rule = some (.selector rule) ∧
      (ofHooks [("x", .atom (.selector rule))]).text .compact = sheet ∧
      Cascade.TextSheet.read? sheet = none ∧
      ofString? "@layer &" = some (.selector "@layer &") := by
  decide +kernel

end Sheet

end ConditionalStyles
