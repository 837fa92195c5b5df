import ConditionalStyles.Proofs.Cascade.Truth
import ConditionalStyles.Proofs.OrderedMap
import ConditionalStyles.Style

/-!
What a merge writes, property by property. Setting properties and overriding them changes exactly
the properties that are named; the place of a property in the style does not matter for its value.
-/
namespace ConditionalStyles

open Cascade

namespace OrderedMap

variable {α : Type}

theorem get?_ofList (entries : List (String × α)) :
    (ofList entries).get? = overwrite (fun _ => none) entries :=
  foldl_eq_overwrite (fun m entry => funext (get?_insert m entry.1 entry.2)) empty entries

end OrderedMap

namespace Styling

variable {s : Styling} {style : Style} {name : String}

theorem get?_write (s : Styling) (style : Style) (key : String) (value : Json.Value)
    (name : String) :
    (s.write style key value).get? name = if name = key then some value else style.get? name := by
  unfold write
  split
  · rw [OrderedMap.get?_insert, OrderedMap.get?_erase]
    by_cases h : name = key <;> simp [h]
  · rw [OrderedMap.get?_insert]

theorem get?_writeAll (s : Styling) (style : Style) (entries : List (String × Json.Value)) :
    (s.writeAll style entries).get? = overwrite style.get? entries :=
  foldl_eq_overwrite (fun style entry => funext (get?_write s style entry.1 entry.2)) style entries

/-- What a map names is taken from it, and all else stays. -/
theorem get?_writeAll_entries (s : Styling) (style properties : Style) (name : String) :
    (s.writeAll style properties.entries).get? name =
      (properties.get? name).or (style.get? name) := by
  rw [get?_writeAll]
  cases h : properties.get? name with
  | none =>
    rw [Option.none_or]
    apply overwrite_of_forall_ne
    intro entry hentry hname
    have hmem : name ∈ properties.names := by
      rw [← hname]
      exact List.mem_map_of_mem hentry
    exact OrderedMap.get?_eq_none_iff.mp h hmem
  | some value =>
    rw [Option.some_or]
    apply overwrite_of_forall_eq
    · exact OrderedMap.get?_eq_some_iff.mp h
    · intro entry hentry hname
      have hget : properties.get? name = some entry.2 := by
        rw [← hname]
        exact OrderedMap.get?_eq_some_iff.mpr hentry
      rw [h] at hget
      exact (Option.some_inj.mp hget).symm

/-- Channels that are not declared keep their values. -/
theorem get?_declare_of_forall_ne {ds : List Declaration}
    (h : ∀ d ∈ ds, d.channel.property ≠ name) :
    (s.declare style ds).get? name = style.get? name := by
  rw [declare, get?_writeAll]
  apply overwrite_of_forall_ne
  intro entry hentry
  obtain ⟨d, hd, rfl⟩ := List.mem_map.mp hentry
  exact h d hd

theorem get?_declare_of_mem {ds : List Declaration} (hds : Declaration.Unambiguous ds)
    {d : Declaration} (hd : d ∈ ds) :
    (s.declare style ds).get? d.channel.property = some (.string (d.signal.text s.spacing)) := by
  rw [declare, get?_writeAll]
  apply overwrite_of_forall_eq
  · exact List.mem_map.mpr ⟨d, hd, rfl⟩
  · intro entry hentry hname
    obtain ⟨e, he, rfl⟩ := List.mem_map.mp hentry
    rw [hds d hd e he (Channel.property_injective hname)]

theorem get?_overrideProperty_of_ne {t : Toggle} {entry : String × Json.Value}
    (h : name ≠ entry.1) : (s.overrideProperty t style entry).get? name = style.get? name := by
  unfold overrideProperty
  split
  · rfl
  · rw [get?_write, if_neg h]

theorem get?_overrideProperty_self (t : Toggle) (value : Json.Value) :
    (s.overrideProperty t style (name, value)).get? name =
      ((s.valueText name value).map fun text =>
        Json.Value.string (s.choice t text (s.fallbackText style name))).or (style.get? name) := by
  unfold overrideProperty
  cases s.valueText name value with
  | none => rfl
  | some text => rw [get?_write, if_pos rfl, Option.map_some, Option.some_or]

theorem get?_overrideEntries_of_forall_ne {t : Toggle} {entries : List (String × Json.Value)}
    (h : ∀ entry ∈ entries, entry.1 ≠ name) :
    (entries.foldl (s.overrideProperty t) style).get? name = style.get? name := by
  induction entries generalizing style with
  | nil => rfl
  | cons entry rest ih =>
    have hne : name ≠ entry.1 := fun heq => h entry List.mem_cons_self heq.symm
    rw [List.foldl_cons, ih fun other hother => h other (List.mem_cons_of_mem entry hother),
      get?_overrideProperty_of_ne hne]

private theorem get?_overrideEntries {t : Toggle} {entries : List (String × Json.Value)}
    (hnodup : (entries.map Prod.fst).Nodup) :
    (entries.foldl (s.overrideProperty t) style).get? name =
      (((entries.lookup name).bind (s.valueText name)).map fun text =>
        Json.Value.string (s.choice t text (s.fallbackText style name))).or (style.get? name) := by
  induction entries generalizing style with
  | nil => rfl
  | cons entry rest ih =>
    obtain ⟨key, value⟩ := entry
    rw [List.map_cons, List.nodup_cons] at hnodup
    rw [List.foldl_cons]
    by_cases h : name = key
    · subst h
      have hrest : ∀ other ∈ rest, other.1 ≠ name := by
        intro other hother heq
        exact hnodup.1 (List.mem_map.mpr ⟨other, hother, heq⟩)
      have hlookup : List.lookup name ((name, value) :: rest) = some value := List.lookup_cons_self
      rw [get?_overrideEntries_of_forall_ne hrest, get?_overrideProperty_self, hlookup,
        Option.bind_some]
    · have hget : (s.overrideProperty t style (key, value)).get? name = style.get? name :=
        get?_overrideProperty_of_ne h
      have hfallback : s.fallbackText (s.overrideProperty t style (key, value)) name =
          s.fallbackText style name := by
        rw [fallbackText, fallbackText, hget]
      rw [ih hnodup.2, hget, hfallback, OrderedMap.lookup_cons_ne rest h]

/-- A property that is overridden with a text chooses between it and what was there before; all
else stays. -/
theorem get?_overrideAll (s : Styling) (t : Toggle) (style properties : Style) (name : String) :
    (s.overrideAll t style properties).get? name =
      (((properties.get? name).bind (s.valueText name)).map fun text =>
        Json.Value.string (s.choice t text (s.fallbackText style name))).or (style.get? name) :=
  get?_overrideEntries properties.nodup

end Styling

end ConditionalStyles
