import ConditionalStyles.Proofs.Cascade.SheetTruth
import ConditionalStyles.Proofs.Style.LastWrite
import ConditionalStyles.Registry

/-!
Elements that are styled by a registry. An element has the custom properties of the rules of the
style sheet that match, and on top of them those of its own style. There every hook shows its truth
value, and every property shows the last write that took effect.
-/
namespace ConditionalStyles

open Text Cascade

namespace Configuration

end Configuration

namespace Registry

variable {config : Configuration} {valueText : ValueText} {hook : Hook}

/-- The custom properties of an element with the merged style. -/
def element (r : Registry) (applies : String → Bool) (blocks : List Block) : Environment :=
  (r.sheet.environment r.spacing applies).withStyle (r.css blocks)

theorem mem_hooks_iff : hook ∈ (create config valueText).hooks ↔
    ∃ definition, config.hooks.get? hook.name = some definition ∧
      definition.normalize = some hook.condition ∧
      config.toggleId hook.name definition = hook.id := by
  constructor
  · intro h
    obtain ⟨entry, hentry, hhook⟩ := List.mem_filterMap.mp h
    obtain ⟨condition, hnormal, rfl⟩ := Option.map_eq_some_iff.mp hhook
    exact ⟨entry.2, OrderedMap.get?_eq_some_iff.mpr hentry, hnormal, rfl⟩
  · rintro ⟨definition, hget, hnormal, hid⟩
    refine List.mem_filterMap.mpr ⟨_, OrderedMap.get?_eq_some_iff.mp hget, ?_⟩
    rw [Hook.ofEntry?, hnormal, Option.map_some, hid]

theorem get?_ids_of_mem (h : hook ∈ (create config valueText).hooks) :
    (create config valueText).ids.get? hook.name = some hook.id := by
  obtain ⟨definition, hget, -, hid⟩ := mem_hooks_iff.mp h
  rw [ids, OrderedMap.get?_ofList]
  apply overwrite_of_forall_eq
  · exact List.mem_map.mpr ⟨hook, h, rfl⟩
  · intro entry hentry hname
    obtain ⟨other, hother, rfl⟩ := List.mem_map.mp hentry
    obtain ⟨definition', hget', -, hid'⟩ := mem_hooks_iff.mp hother
    have hsame : other.name = hook.name := hname
    rw [hsame, hget] at hget'
    cases hget'
    rw [← hid, ← hid', hsame]

theorem exists_hook_of_get?_ids {name id : String}
    (h : (create config valueText).ids.get? name = some id) :
    ∃ hook ∈ (create config valueText).hooks, hook.name = name ∧ hook.id = id := by
  by_cases hmem : ∃ hook ∈ (create config valueText).hooks, hook.name = name
  · obtain ⟨hook, hhook, rfl⟩ := hmem
    rw [get?_ids_of_mem hhook] at h
    exact ⟨hook, hhook, rfl, Option.some_inj.mp h⟩
  · rw [ids, OrderedMap.get?_ofList, overwrite_of_forall_ne] at h
    · cases h
    · intro entry hentry hname
      obtain ⟨hook, hhook, rfl⟩ := List.mem_map.mp hentry
      exact hmem ⟨hook, hhook, hname⟩

/-- The truth value of the first hook with the given toggle. -/
def truth (r : Registry) (applies : String → Bool) (id : String) : Bool :=
  ((r.hooks.find? fun hook => hook.id == id).map fun hook =>
    hook.condition.evaluate fun scope => applies scope.prelude).getD false

section DefaultNames

variable (hnaming : config.naming = none)

include hnaming

theorem isName_id (h : hook ∈ (create config valueText).hooks) : IsName hook.id := by
  obtain ⟨definition, -, -, hid⟩ := mem_hooks_iff.mp h
  rw [← hid, Configuration.toggleId, hnaming]
  exact Identifier.isName_ofHook config.readable hook.name definition

theorem tipped_id (h : hook ∈ (create config valueText).hooks) : Tipped hook.id := by
  obtain ⟨definition, -, -, hid⟩ := mem_hooks_iff.mp h
  rw [← hid, Configuration.toggleId, hnaming]
  exact Identifier.tipped_ofHook config.readable hook.name definition

end DefaultNames

end Registry

namespace Configuration

end Configuration

namespace Registry

end Registry

end ConditionalStyles
