import ConditionalStyles.Proofs.Condition.Atoms
import ConditionalStyles.Proofs.Style.LocalToggles
import ConditionalStyles.Registry
import Mathlib.Data.List.Forall2

/-!
The layout of style sheets, read off the definitions of hooks as they were written. Every hook with
an atom is there, in the order of the configuration. The rule for all elements has its compounds,
each after its operands; then there is one rule for each atom of each definition, in the order of
the text. How often an atom stands under a negation decides which channel is marked for all
elements, and its own rule marks the other one.
-/
namespace ConditionalStyles

namespace Condition

variable {α : Type}

mutual

/-- The atoms from left to right, each with the number of negations above it. -/
def occurrences (above : Nat) : Condition α → List (α × Nat)
  | atom a => [(a, above)]
  | not c => occurrences (above + 1) c
  | connect _ cs => occurrencesList above cs

def occurrencesList (above : Nat) : List (Condition α) → List (α × Nat)
  | [] => []
  | c :: cs => occurrences above c ++ occurrencesList above cs

end

mutual

/-- An atom is negated where an odd number of negations stands above it. -/
theorem map_odd_occurrences (above : Nat) :
    (c : Condition α) →
      (c.occurrences above).map (fun o => (o.1, o.2 % 2 == 1)) =
        c.polarities (above % 2 == 1)
  | atom _ => rfl
  | not c => by
    have hflip : ((above + 1) % 2 == 1) = !(above % 2 == 1) := by
      rcases Nat.mod_two_eq_zero_or_one above with h | h <;> simp [Nat.add_mod, h]
    rw [occurrences, polarities, map_odd_occurrences (above + 1) c, hflip]
  | connect _ cs => by rw [occurrences, polarities, map_odd_occurrencesList above cs]

theorem map_odd_occurrencesList (above : Nat) :
    (cs : List (Condition α)) →
      (occurrencesList above cs).map (fun o => (o.1, o.2 % 2 == 1)) =
        polaritiesList (above % 2 == 1) cs
  | [] => rfl
  | c :: cs => by
    rw [occurrencesList, polaritiesList, List.map_append, map_odd_occurrences above c,
      map_odd_occurrencesList above cs]

end

end Condition

namespace Sheet

/-- An atom in a style sheet. -/
structure Leaf where
  id : String
  scope : Scope
  negated : Bool
  deriving DecidableEq, Repr

/-- A channel of a toggle with its value. -/
def channelText (s : Spacing) (level : Nat) (id number value : String) : String :=
  s.indentation level ++ "--" ++ id ++ "-" ++ number ++ ":" ++ s.space ++ value ++ ";" ++ s.newline

/-- Both channels of a toggle with their values. -/
def pairText (s : Spacing) (level : Nat) (id off on : String) : String :=
  channelText s level id "0" off ++ channelText s level id "1" on

/-- Both channels of an atom, channel 1 marked or channel 0. -/
def markedText (s : Spacing) (level : Nat) (id : String) (one : Bool) : String :=
  if one then pairText s level id s.blank "initial" else pairText s level id "initial" s.blank

/-- Both channels of a compound of the toggles that are named by a letter after its own name. -/
def compoundText (s : Spacing) (id : String) (k : Connective) : String :=
  let node : Compound := ⟨id, k, { id := id ++ "A" }, { id := id ++ "B" }⟩
  pairText s 1 id (node.text s false) (node.text s true)

/-- The rule of an atom, with the other channel marked than for all elements. -/
def Leaf.text (s : Spacing) (leaf : Leaf) : String :=
  match leaf.scope with
  | .selector _ =>
    leaf.scope.universal ++ s.space ++ "\x7b" ++ s.newline ++
      markedText s 1 leaf.id (!leaf.negated) ++ "\x7d" ++ s.newline
  | .atRule prelude =>
    prelude ++ s.space ++ "\x7b" ++ s.newline ++ s.indent ++ "*" ++ s.space ++ "\x7b" ++
      s.newline ++ markedText s 2 leaf.id (!leaf.negated) ++ s.indent ++ "\x7d" ++ s.newline ++
      "\x7d" ++ s.newline

/-- What a normal form with a name contributes to a style sheet: a text in the rule for all
elements, in which a compound comes after its operands, and its atoms from left to right. -/
inductive Contributes (s : Spacing) : String → Bool → Condition Scope → String → List Leaf → Prop
  | atom (id : String) (negated : Bool) (scope : Scope) :
    Contributes s id negated (.atom scope) (markedText s 1 id negated) [⟨id, scope, negated⟩]
  | not {id : String} {negated : Bool} {c : Condition Scope} {root : String} {leaves : List Leaf}
    (h : Contributes s id (!negated) c root leaves) : Contributes s id negated (.not c) root leaves
  | connect {id : String} {negated : Bool} {a b : Condition Scope} {first second : String}
    {leaves others : List Leaf} (k : Connective)
    (ha : Contributes s (id ++ "A") negated a first leaves)
    (hb : Contributes s (id ++ "B") negated b second others) :
    Contributes s id negated (.connect k [a, b])
      (first ++ second ++ compoundText s id (k.under negated)) (leaves ++ others)

section Printing

variable (s : Spacing)

theorem declarationsText_append (level : Nat) (ds es : List Declaration) :
    declarationsText s level (ds ++ es) =
      declarationsText s level ds ++ declarationsText s level es := by
  rw [declarationsText, List.map_append, String.join_append]
  rfl

theorem declaration_text (level : Nat) (channel : Channel) (signal : Signal) :
    Declaration.text s level ⟨channel, signal⟩ =
      channelText s level channel.toggle (if channel.on then "1" else "0") (signal.text s) := by
  obtain ⟨id, on⟩ := channel
  cases on <;> simp [Declaration.text, Channel.property, channelText, String.append_assoc]

theorem declarationsText_pair (level : Nat) (id : String) (off on : Signal) :
    declarationsText s level [⟨⟨id, false⟩, off⟩, ⟨⟨id, true⟩, on⟩] =
      pairText s level id (off.text s) (on.text s) := by
  simp [declarationsText, declaration_text, pairText]

theorem declarationsText_settle (level : Nat) (id : String) (value : Bool) :
    declarationsText s level (Toggle.settle id value) = markedText s level id value := by
  cases value <;> exact declarationsText_pair s level id _ _

theorem declarationsText_wire (id : String) (k : Connective) :
    declarationsText s 1 (Toggle.wire id k { id := id ++ "A" } { id := id ++ "B" }) =
      compoundText s id k := by
  rw [compoundText, ← Compound.text_signal, ← Compound.text_signal]
  exact declarationsText_pair s 1 id _ _

theorem ruleText_leaf (leaf : Leaf) :
    ruleText s ⟨leaf.scope, Toggle.settle leaf.id (!leaf.negated)⟩ = leaf.text s := by
  obtain ⟨id, scope, negated⟩ := leaf
  cases scope with
  | selector source =>
    simp [ruleText, blockText, Leaf.text, declarationsText_settle, Spacing.indentation]
  | atRule prelude =>
    simp [ruleText, blockText, Leaf.text, declarationsText_settle, Spacing.indentation,
      Scope.universal, String.append_assoc]

end Printing

theorem ofCondition_binary (id : String) (negated : Bool) (k : Connective)
    (a b : Condition Scope) :
    ofCondition id negated (.connect k [a, b]) =
      ⟨(ofCondition (id ++ "A") negated a).root ++ (ofCondition (id ++ "B") negated b).root ++
          Toggle.wire id (k.under negated) { id := id ++ "A" } { id := id ++ "B" },
        (ofCondition (id ++ "A") negated a).rules ++
          (ofCondition (id ++ "B") negated b).rules ++ []⟩ :=
  rfl

/-- A normal form is compiled to what it contributes. -/
theorem exists_contributes (s : Spacing) {c : Condition Scope} (h : c.Canonical) (id : String)
    (negated : Bool) :
    ∃ leaves,
      Contributes s id negated c (declarationsText s 1 (ofCondition id negated c).root) leaves ∧
      (ofCondition id negated c).rules.map (ruleText s) = leaves.map (Leaf.text s) ∧
      leaves.map (fun leaf => (leaf.scope, leaf.negated)) = c.polarities negated := by
  induction c, h using Condition.Canonical.induction generalizing id negated with
  | atom scope =>
    refine ⟨[⟨id, scope, negated⟩], ?_, ?_, rfl⟩
    · rw [ofCondition, leaf, declarationsText_settle]
      exact Contributes.atom id negated scope
    · exact congrArg (fun text => [text]) (ruleText_leaf s ⟨id, scope, negated⟩)
  | not c hnot hc ih =>
    obtain ⟨leaves, hroot, hrules, hleaves⟩ := ih id (!negated)
    exact ⟨leaves, Contributes.not hroot, hrules, hleaves⟩
  | connect k a b ha hb iha ihb =>
    obtain ⟨leaves, hroot, hrules, hleaves⟩ := iha (id ++ "A") negated
    obtain ⟨others, hroot', hrules', hothers⟩ := ihb (id ++ "B") negated
    rw [ofCondition_binary]
    refine ⟨leaves ++ others, ?_, ?_, ?_⟩
    · rw [declarationsText_append, declarationsText_append, declarationsText_wire]
      exact Contributes.connect k hroot hroot'
    · rw [List.append_nil, List.map_append, List.map_append, hrules, hrules']
    · rw [List.map_append, hleaves, hothers]
      simp [Condition.polarities, Condition.polaritiesList]

end Sheet

namespace Registry

/-- A part of a style sheet follows from a hook of the configuration. -/
structure FollowsFrom (config : Configuration) (entry : String × Condition Scope)
    (part : String × List Sheet.Leaf) : Prop where
  /-- The normal form contributes the text for all elements and the atoms. -/
  normal : ∃ c, entry.2.normalize = some c ∧
    Sheet.Contributes config.spacing (config.toggleId entry.1 entry.2) false c part.1 part.2
  /-- These are the atoms of the definition, one by one. -/
  atoms : part.2.map Sheet.Leaf.scope = entry.2.atoms
  /-- An atom is negated if the number of negations above it is odd. -/
  negated : part.2.map (fun leaf => (leaf.scope, leaf.negated)) =
    (entry.2.occurrences 0).map fun occurrence => (occurrence.1, occurrence.2 % 2 == 1)

theorem exists_followsFrom (config : Configuration) {entry : String × Condition Scope}
    {c : Condition Scope} (h : entry.2.normalize = some c) :
    ∃ leaves, FollowsFrom config entry
        (Sheet.declarationsText config.spacing 1
          (Sheet.ofCondition (config.toggleId entry.1 entry.2) false c).root, leaves) ∧
      (Sheet.ofCondition (config.toggleId entry.1 entry.2) false c).rules.map
        (Sheet.ruleText config.spacing) = leaves.map (Sheet.Leaf.text config.spacing) := by
  obtain ⟨leaves, hcontributes, hrules, hleaves⟩ := Sheet.exists_contributes config.spacing
    (Condition.canonical_of_normalize h) (config.toggleId entry.1 entry.2) false
  rw [Condition.polarities_of_normalize h] at hleaves
  refine ⟨leaves, ⟨⟨c, h, hcontributes⟩, ?_, ?_⟩, hrules⟩
  · rw [← Condition.map_fst_polarities false, ← hleaves, List.map_map]
    rfl
  · rw [hleaves, Condition.map_odd_occurrences]
    rfl

/-- Of the declared hooks, those with an atom are taken. -/
theorem forall₂_ofEntry? (config : Configuration) (entries : List (String × Condition Scope)) :
    List.Forall₂ (fun entry hook => Hook.ofEntry? config entry = some hook)
      (entries.filter fun entry => !entry.2.atoms.isEmpty)
      (entries.filterMap (Hook.ofEntry? config)) := by
  induction entries with
  | nil => exact List.Forall₂.nil
  | cons entry entries ih =>
    cases hn : entry.2.normalize with
    | none =>
      have hatoms : entry.2.atoms = [] := (Condition.normalize_eq_none_iff entry.2).mp hn
      have hhook : Hook.ofEntry? config entry = none := by rw [Hook.ofEntry?, hn, Option.map_none]
      rw [List.filter_cons_of_neg (by simp [hatoms]), List.filterMap_cons_none hhook]
      exact ih
    | some c =>
      have hatoms : entry.2.atoms ≠ [] := by
        rw [Ne, ← Condition.normalize_eq_none_iff, hn]
        exact Option.some_ne_none c
      have hhook : Hook.ofEntry? config entry =
          some ⟨entry.1, config.toggleId entry.1 entry.2, c⟩ := by
        rw [Hook.ofEntry?, hn, Option.map_some]
      rw [List.filter_cons_of_pos (by simp [hatoms]), List.filterMap_cons_some hhook]
      exact List.Forall₂.cons hhook ih

/-- Hook by hook, the style sheet is put together from parts that follow from the definitions. -/
theorem exists_parts {config : Configuration} {entries : List (String × Condition Scope)}
    {hooks : List Hook}
    (h : List.Forall₂ (fun entry hook => Hook.ofEntry? config entry = some hook) entries hooks) :
    ∃ parts, List.Forall₂ (FollowsFrom config) entries parts ∧
      Sheet.declarationsText config.spacing 1
          (Sheet.ofHooks (hooks.map fun hook => (hook.id, hook.condition))).root =
        String.join (parts.map Prod.fst) ∧
      (Sheet.ofHooks (hooks.map fun hook => (hook.id, hook.condition))).rules.map
          (Sheet.ruleText config.spacing) =
        parts.flatMap fun part => part.2.map (Sheet.Leaf.text config.spacing) := by
  induction h with
  | nil => exact ⟨[], List.Forall₂.nil, rfl, rfl⟩
  | @cons entry hook entries hooks hhook htail ih =>
    obtain ⟨parts, hparts, hroot, hrules⟩ := ih
    obtain ⟨c, hn, rfl⟩ := Option.map_eq_some_iff.mp hhook
    obtain ⟨leaves, hfollows, hleaves⟩ := exists_followsFrom config hn
    refine ⟨_ :: parts, List.Forall₂.cons hfollows hparts, ?_, ?_⟩
    · rw [List.map_cons, List.map_cons, String.join_cons, ← hroot]
      exact Sheet.declarationsText_append config.spacing 1 _ _
    · rw [List.map_cons, List.flatMap_cons, ← hleaves, ← hrules, ← List.map_append]
      rfl

theorem names_eq_of_forall₂ {config : Configuration} {entries : List (String × Condition Scope)}
    {hooks : List Hook}
    (h : List.Forall₂ (fun entry hook => Hook.ofEntry? config entry = some hook) entries hooks) :
    hooks.map (fun hook => (hook.name, hook.id)) =
      entries.map fun entry => (entry.1, config.toggleId entry.1 entry.2) := by
  induction h with
  | nil => rfl
  | @cons entry hook entries hooks hhook htail ih =>
    obtain ⟨c, -, rfl⟩ := Option.map_eq_some_iff.mp hhook
    rw [List.map_cons, List.map_cons, ih]

/-- A registry has the declared hooks with an atom, in order, and its style sheet follows from their
definitions: one rule for all elements, with the text that each hook contributes, and then one rule
for each atom of each definition. -/
theorem sheet_follows_definitions (config : Configuration) (valueText : ValueText) :
    let r := create config valueText
    let s := config.spacing
    let declared := config.hooks.entries.filter fun entry => !entry.2.atoms.isEmpty
    (r.names = declared.map fun entry => (entry.1, config.toggleId entry.1 entry.2)) ∧
    ∃ parts, List.Forall₂ (FollowsFrom config) declared parts ∧
      r.styleSheet.1 =
        "*" ++ s.space ++ "\x7b" ++ s.newline ++ String.join (parts.map Prod.fst) ++ "\x7d" ++
          s.newline ++
          String.join (parts.flatMap fun part => part.2.map (Sheet.Leaf.text s)) := by
  intro r s declared
  have hhooks := forall₂_ofEntry? config config.hooks.entries
  obtain ⟨parts, hparts, hroot, hrules⟩ := exists_parts hhooks
  refine ⟨names_eq_of_forall₂ hhooks, parts, hparts, ?_⟩
  have hsheet : r.styleSheet.1 = Sheet.blockText s 0 "*" (String.join (parts.map Prod.fst)) ++
      String.join (parts.flatMap fun part => part.2.map (Sheet.Leaf.text s)) := by
    rw [← hroot, ← hrules]
    rfl
  rw [hsheet]
  simp [Sheet.blockText, Spacing.indentation]

end Registry

end ConditionalStyles
