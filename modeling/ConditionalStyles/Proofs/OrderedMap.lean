import ConditionalStyles.OrderedMap
import Mathlib.Data.List.Dedup
import Mathlib.Data.List.Induction

/-!
Maps read as functions and as lists. The value of a name is that of its entry. A map that is built
from a list of entries keeps the last value of every name; its names stand in the order of their
first entries, or of their last ones if a name moves to the end whenever it is written.
-/
namespace ConditionalStyles.OrderedMap

variable {α : Type}

theorem get?_eq_some_iff {m : OrderedMap α} {name : String} {value : α} :
    m.get? name = some value ↔ (name, value) ∈ m.entries := by
  obtain ⟨entries, hnodup⟩ := m
  simp only [get?]
  induction entries with
  | nil => simp
  | cons entry rest ih =>
    rw [List.map_cons, List.nodup_cons] at hnodup
    by_cases h : name = entry.1
    · have hlookup : (entry :: rest).lookup name = some entry.2 := by
        rw [h]
        exact List.lookup_cons_self
      have hrest : (name, value) ∉ rest := by
        intro hin
        have hname : name ∈ rest.map Prod.fst := List.mem_map.mpr ⟨(name, value), hin, rfl⟩
        rw [h] at hname
        exact hnodup.1 hname
      rw [hlookup, Option.some_inj]
      constructor
      · rintro rfl
        rw [h]
        exact List.mem_cons_self
      · intro hin
        rcases List.mem_cons.mp hin with heq | hin
        · rw [← heq]
        · exact absurd hin hrest
    · have hne : (name, value) ≠ entry := fun heq => h (by rw [← heq])
      rw [lookup_cons_ne rest h, ih hnodup.2, List.mem_cons]
      exact ⟨Or.inr, fun hin => hin.resolve_left hne⟩

theorem get?_eq_none_iff {m : OrderedMap α} {name : String} :
    m.get? name = none ↔ name ∉ m.names := by
  constructor
  · intro h hmem
    obtain ⟨entry, hentry, rfl⟩ := List.mem_map.mp hmem
    rw [get?_eq_some_iff.mpr hentry] at h
    cases h
  · intro h
    cases hget : m.get? name with
    | none => rfl
    | some value => exact absurd (List.mem_map.mpr ⟨_, get?_eq_some_iff.mp hget, rfl⟩) h

theorem mem_names_of_get? {m : OrderedMap α} {name : String} {value : α}
    (h : m.get? name = some value) : name ∈ m.names :=
  List.mem_map.mpr ⟨_, get?_eq_some_iff.mp h, rfl⟩

theorem insertAll_concat (m : OrderedMap α) (entries : List (String × α)) (entry : String × α) :
    m.insertAll (entries ++ [entry]) = (m.insertAll entries).insert entry.1 entry.2 := by
  simp [insertAll]

/-- Names stand in the order of their first entries. -/
theorem names_ofList (entries : List (String × α)) :
    (ofList entries).names = (entries.map Prod.fst).eraseDups := by
  induction entries using List.reverseRecOn with
  | nil => rfl
  | append_singleton entries entry ih =>
    rw [ofList, insertAll_concat, names_insert]
    change (if entry.1 ∈ (ofList entries).names then (ofList entries).names
      else (ofList entries).names ++ [entry.1]) = _
    rw [ih, List.map_append, List.eraseDups_append, List.map_singleton, List.removeAll]
    by_cases hmem : entry.1 ∈ entries.map Prod.fst
    · rw [if_pos (List.mem_eraseDups.mpr hmem), List.filter_cons_of_neg (by simpa using hmem),
        List.filter_nil, List.eraseDups_nil, List.append_nil]
    · rw [if_neg (mt List.mem_eraseDups.mp hmem), List.filter_cons_of_pos (by simpa using hmem),
        List.filter_nil, List.eraseDups_cons, List.filter_nil, List.eraseDups_nil]

/-- Every name has the value of its last entry. -/
theorem get?_ofList_eq_lookup (entries : List (String × α)) (name : String) :
    (ofList entries).get? name = entries.reverse.lookup name := by
  induction entries using List.reverseRecOn with
  | nil => rfl
  | append_singleton entries entry ih =>
    rw [ofList, insertAll_concat, get?_insert, List.reverse_concat]
    by_cases hname : name = entry.1
    · rw [if_pos hname, hname]
      exact List.lookup_cons_self.symm
    · rw [if_neg hname, lookup_cons_ne _ hname]
      exact ih

theorem names_erase (m : OrderedMap α) (name : String) :
    (m.erase name).names = m.names.filter fun other => other != name := by
  rw [names, erase, names, List.filter_map]
  rfl

theorem dedup_concat (names : List String) (name : String) :
    (names ++ [name]).dedup = (names.dedup.filter fun other => other != name) ++ [name] := by
  induction names with
  | nil => rfl
  | cons first rest ih =>
    rw [List.cons_append]
    by_cases hrest : first ∈ rest
    · rw [List.dedup_cons_of_mem (List.mem_append_left _ hrest), List.dedup_cons_of_mem hrest, ih]
    · rw [List.dedup_cons_of_notMem hrest]
      by_cases hname : first = name
      · rw [List.dedup_cons_of_mem (by simp [hname]),
          List.filter_cons_of_neg (by simpa using hname), ih]
      · rw [List.dedup_cons_of_notMem (by simp [hrest, hname]),
          List.filter_cons_of_pos (by simpa using hname), ih, List.cons_append]

/-- Names stand in the order of their last entries if every entry is moved to the end. -/
theorem names_moveAll (entries : List (String × α)) :
    (entries.foldl (fun m entry => (m.erase entry.1).insert entry.1 entry.2)
      (∅ : OrderedMap α)).names = (entries.map Prod.fst).dedup := by
  induction entries using List.reverseRecOn with
  | nil => rfl
  | append_singleton entries entry ih =>
    have herased : ∀ m : OrderedMap α, entry.1 ∉ (m.erase entry.1).names := by
      intro m
      simp [names_erase]
    rw [List.foldl_append, List.foldl_cons, List.foldl_nil, names_insert, if_neg (herased _),
      names_erase, ih, List.map_append, List.map_singleton, dedup_concat]

end ConditionalStyles.OrderedMap
