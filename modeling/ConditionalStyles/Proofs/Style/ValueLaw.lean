import ConditionalStyles.Proofs.Style.LastWrite
import Mathlib.Data.List.Induction

/-!
Merges, one property at a time. An override that can apply and is not on a single hook takes the
next number, so its number is how many such overrides came before it. What a property becomes is
decided by the changes that name it: setting it replaces its value, and an override puts a choice in
front of it. Nothing else of the style matters, and the toggle of an override depends on the
conditions of the merge only.
-/
namespace ConditionalStyles

open Cascade

/-- What a change does to one property. -/
inductive Edit where
  | assign (value : Json.Value)
  | cover (t : Toggle) (text : String)

/-- The value after an edit. A choice falls back to the text that was there before, or to the
keyword if there was none. -/
def Edit.result (s : Styling) (property : String) (current : Option Json.Value) :
    Edit → Json.Value
  | assign value => value
  | cover t text =>
    let before := (current.bind (s.valueText property)).getD s.fallback.keyword
    .string ("var(" ++ (t.channel true).property ++ "," ++ s.spacing.space ++ text ++ ")" ++
      s.spacing.space ++
      "var(" ++ (t.channel false).property ++ "," ++ s.spacing.space ++ before ++ ")")

theorem Edit.result_cover (s : Styling) (property : String) (current : Option Json.Value)
    (t : Toggle) (text : String) :
    (cover t text).result s property current = .string
      (s.choice t text ((current.bind (s.valueText property)).getD s.fallback.keyword)) := by
  simp [result, Styling.choice, Channel.referenceOr, String.append_assoc]

namespace Styling

/-- Overrides that can apply take a number, unless they are on a single hook. -/
def takesNumber (s : Styling) : Change → Bool
  | .set _ => false
  | .override o => (s.resolve? o.condition).any fun c => !c.isAtom

/-- Each change with the number of those before it that take one. -/
def numberedChanges (s : Styling) (changes : List Change) : List (Nat × Change) :=
  changes.mapIdx fun i change => ((changes.take i).countP s.takesNumber, change)

def compoundsOf (s : Styling) : Nat × Change → List Compound
  | (_, .set _) => []
  | (number, .override o) =>
    match s.resolve? o.condition with
    | some c => c.compounds (Identifier.numbered number)
    | none => []

/-- The compounds of all overrides, for which the style gets toggles. -/
def localCompounds (s : Styling) (changes : List Change) : List Compound :=
  (s.numberedChanges changes).flatMap s.compoundsOf

theorem numberedChanges_concat (s : Styling) (changes : List Change) (change : Change) :
    s.numberedChanges (changes ++ [change]) =
      s.numberedChanges changes ++ [(changes.countP s.takesNumber, change)] := by
  have hearlier : ∀ i < changes.length, (changes ++ [change]).take i = changes.take i :=
    fun i hi => List.take_append_of_le_length (Nat.le_of_lt hi)
  rw [numberedChanges, numberedChanges, List.mapIdx_concat]
  congr 1
  · apply List.ext_getElem
    · simp
    · intro i hi hi'
      rw [List.length_mapIdx] at hi
      simp only [List.getElem_mapIdx, hearlier i hi]
  · rw [List.take_left']
    rfl

theorem localCompounds_concat (s : Styling) (changes : List Change) (change : Change) :
    s.localCompounds (changes ++ [change]) =
      s.localCompounds changes ++ s.compoundsOf (changes.countP s.takesNumber, change) := by
  rw [localCompounds, numberedChanges_concat, List.flatMap_append, List.flatMap_singleton]
  rfl

theorem numbered_apply (s : Styling) (progress : Progress) (change : Change) :
    (s.apply progress change).numbered = progress.numbered + [change].countP s.takesNumber := by
  rw [List.countP_singleton]
  cases change with
  | set properties => rfl
  | override o =>
    rw [apply, applyOverride, takesNumber]
    cases hc : s.resolve? o.condition with
    | none => rfl
    | some c => cases hatom : c.isAtom <;> simp [hatom]

/-- A merge counts the changes that take a number. -/
theorem numbered_run (s : Styling) (changes : List Change) :
    (changes.foldl s.apply {}).numbered = changes.countP s.takesNumber := by
  induction changes using List.reverseRecOn with
  | nil => rfl
  | append_singleton changes change ih =>
    rw [List.foldl_append, List.foldl_cons, List.foldl_nil, numbered_apply, ih,
      List.countP_append]

variable {s : Styling} {property : String}

/-- The change writes the property: it sets it, or it can apply and has a text for it. -/
def Touches (s : Styling) (property : String) : Change → Prop
  | .set properties => property ∈ properties.names
  | .override o => (s.resolve? o.condition).isSome ∧
      ∃ value, o.properties.get? property = some value ∧ (s.valueText property value).isSome

theorem Touches.mem_names {change : Change} (h : s.Touches property change) :
    property ∈ change.properties.names := by
  cases change with
  | set properties => exact h
  | override o =>
    obtain ⟨-, value, hvalue, -⟩ := h
    exact OrderedMap.mem_names_of_get? hvalue

def edit? (s : Styling) (property : String) : Nat × Change → Option Edit
  | (_, .set properties) => (properties.get? property).map .assign
  | (number, .override o) => do
    let c ← s.resolve? o.condition
    let value ← o.properties.get? property
    let text ← s.valueText property value
    return .cover (c.toggleUnder (Identifier.numbered number)) text

/-- The edits of one property, in the order of the changes. -/
def edits (s : Styling) (property : String) (changes : List Change) : List Edit :=
  (s.numberedChanges changes).filterMap (s.edit? property)

/-- The value of a property after edits, starting from nothing. -/
def edited (s : Styling) (property : String) (edits : List Edit) : Option Json.Value :=
  edits.foldl (fun current edit => some (edit.result s property current)) none

theorem edit?_eq_none_iff {number : Nat} {change : Change} :
    s.edit? property (number, change) = none ↔ ¬ s.Touches property change := by
  cases change with
  | set properties =>
    rw [edit?, Touches, Option.map_eq_none_iff, OrderedMap.get?_eq_none_iff]
  | override o =>
    rw [edit?, Touches]
    cases s.resolve? o.condition with
    | none => simp
    | some c =>
      cases o.properties.get? property with
      | none => simp
      | some value => cases h : s.valueText property value <;> simp [h]

theorem edits_concat (s : Styling) (property : String) (changes : List Change) (change : Change) :
    s.edits property (changes ++ [change]) = s.edits property changes ++
      (s.edit? property (changes.countP s.takesNumber, change)).toList := by
  rw [edits, numberedChanges_concat, List.filterMap_append]
  cases h : s.edit? property (changes.countP s.takesNumber, change) with
  | none => rw [List.filterMap_cons_none h]; rfl
  | some edit => rw [List.filterMap_cons_some h]; rfl

theorem edits_eq_nil_iff {changes : List Change} :
    s.edits property changes = [] ↔ ∀ change ∈ changes, ¬ s.Touches property change := by
  induction changes using List.reverseRecOn with
  | nil => simp [edits, numberedChanges]
  | append_singleton changes change ih =>
    rw [edits_concat, List.append_eq_nil_iff, ih, Option.toList_eq_nil_iff, edit?_eq_none_iff,
      List.forall_mem_append, List.forall_mem_singleton]

theorem edited_concat (s : Styling) (property : String) (past : List Edit) (edit : Option Edit) :
    s.edited property (past ++ edit.toList) =
      (edit.map fun edit => edit.result s property (s.edited property past)).or
        (s.edited property past) := by
  cases edit with
  | none => rw [Option.toList_none, List.append_nil]; rfl
  | some edit => rw [edited, Option.toList_some, List.foldl_append]; rfl

theorem edited_eq_none_iff {past : List Edit} : s.edited property past = none ↔ past = [] := by
  induction past using List.reverseRecOn with
  | nil => simp [edited]
  | append_singleton past edit ih => simp [edited]

/-- Only channels of its own compounds are declared by a change. -/
theorem get?_declare_compounds (s : Styling) (style : Style) {nodes : List Compound}
    (h : ∀ node ∈ nodes, ∀ on, (node.channel on).property ≠ property) :
    (s.declare style (nodes.flatMap Compound.declarations)).get? property =
      style.get? property := by
  apply get?_declare_of_forall_ne
  intro d hd
  obtain ⟨node, hnode, hmem⟩ := List.mem_flatMap.mp hd
  rw [Compound.eq_channel_of_mem_declarations hmem]
  exact h node hnode d.channel.on

/-- One step of a merge, seen from a property that is no channel of a compound in it. -/
theorem get?_apply {progress : Progress} {change : Change}
    (h : ∀ node ∈ s.compoundsOf (progress.numbered, change), ∀ on,
      (node.channel on).property ≠ property) :
    (s.apply progress change).style.get? property =
      ((s.edit? property (progress.numbered, change)).map fun edit =>
        edit.result s property (progress.style.get? property)).or
          (progress.style.get? property) := by
  cases change with
  | set properties =>
    rw [apply, get?_writeAll_entries, edit?, Option.map_map]
    cases properties.get? property <;> rfl
  | override o =>
    cases hc : s.resolve? o.condition with
    | none => rw [apply, applyOverride, hc, edit?, hc]; rfl
    | some c =>
      -- The override reads the property after declaring its own toggles, which does not touch it.
      have hdeclared := s.get?_declare_compounds progress.style h
      rw [compoundsOf, hc] at hdeclared
      rw [style_apply_override hc, get?_overrideAll, fallbackText, hdeclared, edit?, hc]
      cases o.properties.get? property with
      | none => rfl
      | some value =>
        cases htext : s.valueText property value with
        | none => simp [htext]
        | some text =>
          simp [htext, Edit.result_cover]

/-- After any run of changes, a property that is no channel of a compound has the value of its
edits. -/
theorem get?_run {changes : List Change}
    (h : ∀ node ∈ s.localCompounds changes, ∀ on, (node.channel on).property ≠ property) :
    (changes.foldl s.apply {}).style.get? property =
      s.edited property (s.edits property changes) := by
  induction changes using List.reverseRecOn with
  | nil => rfl
  | append_singleton changes change ih =>
    rw [localCompounds_concat, List.forall_mem_append, ← numbered_run] at h
    rw [List.foldl_append, List.foldl_cons, List.foldl_nil, get?_apply h.2, ih h.1, numbered_run,
      edits_concat, edited_concat]

end Styling

end ConditionalStyles
