import ConditionalStyles.Proofs.Condition.Atoms
import ConditionalStyles.Proofs.Condition.Replacement
import ConditionalStyles.Style

/-!
What a merge sees of the conditions of overrides. Only the normal form of a condition matters, and
an override whose condition names no hook that can apply may as well be left out: the style, its
order and the numbers of its toggles stay the same.
-/
namespace ConditionalStyles

/-- The second list has conditions with the same normal forms, and may leave out overrides that name
no hook with a toggle. -/
inductive Override.Condensed (ids : OrderedMap String) : List Override → List Override → Prop
  | nil : Condensed ids [] []
  | keep {o o' : Override} {os os' : List Override}
      (hcondition : o.condition.normalize = o'.condition.normalize)
      (hproperties : o.properties = o'.properties) (hrest : Condensed ids os os') :
      Condensed ids (o :: os) (o' :: os')
  | drop {o : Override} {os os' : List Override}
      (hatoms : ∀ name ∈ o.condition.atoms, ids.get? name = none) (hrest : Condensed ids os os') :
      Condensed ids (o :: os) os'

def Block.Condensed (ids : OrderedMap String) (block block' : Block) : Prop :=
  block.properties = block'.properties ∧ Override.Condensed ids block.overrides block'.overrides

namespace Styling

variable {s : Styling} {blocks blocks' : List Block}

theorem resolve?_eq_of_normalize {c d : Condition String} (h : c.normalize = d.normalize) :
    s.resolve? c = s.resolve? d := by
  rw [resolve?, resolve?, Condition.normalize_resolve, h, ← Condition.normalize_resolve]

theorem apply_override_of_rejected {o : Override}
    (h : ∀ name ∈ o.condition.atoms, s.ids.get? name = none) (progress : Progress) :
    s.apply progress (.override o) = progress := by
  have hnone : s.resolve? o.condition = none :=
    (Condition.normalize_resolve_eq_none_iff s.ids.get? o.condition).mpr h
  rw [apply, applyOverride, hnone]

theorem apply_override_of_normalize {o o' : Override}
    (hcondition : o.condition.normalize = o'.condition.normalize)
    (hproperties : o.properties = o'.properties) (progress : Progress) :
    s.apply progress (.override o) = s.apply progress (.override o') := by
  rw [apply, apply, applyOverride, applyOverride, resolve?_eq_of_normalize hcondition, hproperties]

/-- At every step of a merge, condensed overrides lead to the same style and number. -/
theorem foldl_overrides_of_condensed {os os' : List Override}
    (h : Override.Condensed s.ids os os') (progress : Progress) :
    (os.map Change.override).foldl s.apply progress =
      (os'.map Change.override).foldl s.apply progress := by
  induction h generalizing progress with
  | nil => rfl
  | keep hcondition hproperties hrest ih =>
    rw [List.map_cons, List.map_cons, List.foldl_cons, List.foldl_cons,
      apply_override_of_normalize hcondition hproperties, ih]
  | drop hatoms hrest ih =>
    rw [List.map_cons, List.foldl_cons, apply_override_of_rejected hatoms, ih]

theorem map_set_of_condensed (h : List.Forall₂ (Block.Condensed s.ids) blocks blocks') :
    (blocks.map fun block => Change.set block.properties) =
      blocks'.map fun block => Change.set block.properties := by
  induction h with
  | nil => rfl
  | cons hblock hrest ih => rw [List.map_cons, List.map_cons, hblock.1, ih]

theorem foldl_allOverrides_of_condensed (h : List.Forall₂ (Block.Condensed s.ids) blocks blocks')
    (progress : Progress) :
    (blocks.flatMap fun block => block.overrides.map Change.override).foldl s.apply progress =
      (blocks'.flatMap fun block => block.overrides.map Change.override).foldl s.apply
        progress := by
  induction h generalizing progress with
  | nil => rfl
  | cons hblock hrest ih =>
    rw [List.flatMap_cons, List.flatMap_cons, List.foldl_append, List.foldl_append,
      foldl_overrides_of_condensed hblock.2, ih]

theorem foldl_blocks_of_condensed (h : List.Forall₂ (Block.Condensed s.ids) blocks blocks')
    (progress : Progress) :
    (blocks.flatMap Change.ofBlock).foldl s.apply progress =
      (blocks'.flatMap Change.ofBlock).foldl s.apply progress := by
  induction h generalizing progress with
  | nil => rfl
  | cons hblock hrest ih =>
    rw [List.flatMap_cons, List.flatMap_cons, List.foldl_append, List.foldl_append, Change.ofBlock,
      Change.ofBlock, List.foldl_cons, List.foldl_cons, hblock.1,
      foldl_overrides_of_condensed hblock.2, ih]

/-- Conditions may be exchanged for others with the same normal form, and overrides that name no
hook with a toggle may be left out, in any of the blocks: from whatever was merged before, the
style, its order and the number of toggles come out the same. -/
theorem merge_sees_normal_forms (s : Styling) (blocks blocks' : List Block)
    (h : List.Forall₂ (Block.Condensed s.ids) blocks blocks') :
    (∀ progress, (s.changes blocks).foldl s.apply progress =
      (s.changes blocks').foldl s.apply progress) ∧ s.merge blocks = s.merge blocks' := by
  have hall : ∀ progress, (s.changes blocks).foldl s.apply progress =
      (s.changes blocks').foldl s.apply progress := by
    intro progress
    rw [changes, changes, Change.ofBlocks, Change.ofBlocks]
    split
    · rw [List.foldl_append, List.foldl_append, map_set_of_condensed h,
        foldl_allOverrides_of_condensed h]
    · exact foldl_blocks_of_condensed h progress
  refine ⟨hall, ?_⟩
  rw [merge, merge, hall]

/-- A double negation around nested conjunctions, and an override on a hook that was never declared
between two that count. -/
theorem merge_drops_undeclared_hook :
    Styling.merge ⟨.ofList [("a", "x"), ("b", "y")], .unset, {}, .readable, .generic⟩
        [⟨.ofList [("color", .string "red")],
          [⟨.not (.not (.all [.atom "a", .all [.any [], .atom "b"]])),
              .ofList [("color", .string "blue")]⟩,
            ⟨.any [.not (.atom "gone"), .all []], .ofList [("margin", .string "0")]⟩,
            ⟨.not (.atom "b"), .ofList [("color", .string "green")]⟩]⟩] =
      Styling.merge ⟨.ofList [("a", "x"), ("b", "y")], .unset, {}, .readable, .generic⟩
        [⟨.ofList [("color", .string "red")],
          [⟨.all [.atom "a", .atom "b"], .ofList [("color", .string "blue")]⟩,
            ⟨.not (.all [.atom "b"]), .ofList [("color", .string "green")]⟩]⟩] := by
  refine And.right (merge_sees_normal_forms _ _ _ ?_)
  refine .cons ⟨rfl, ?_⟩ .nil
  refine .keep (by decide) rfl (.drop ?_ (.keep (by decide) rfl .nil))
  decide

end Styling

end ConditionalStyles
