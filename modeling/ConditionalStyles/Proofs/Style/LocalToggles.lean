import ConditionalStyles.Proofs.Cascade.Mention
import ConditionalStyles.Proofs.Style.ValueLaw

/-!
The toggles that a style declares for itself. There is one for each compound of each override, its
name is not used twice, and it keeps the value of its compound to the end of the merge. Such a
toggle is made from those of hooks and from others with longer names in the same style, so that
references neither hang in the air nor come back to where they started.
-/
namespace ConditionalStyles

open Cascade

namespace Compound

/-- The value of a channel: both operands side by side if one of them can decide alone, and else
the first one with the second one to fall back to. -/
def text (s : Spacing) (node : Compound) (on : Bool) : String :=
  let first := "var(" ++ (node.first.channel on).property
  let second := "var(" ++ (node.second.channel on).property ++ ")"
  match node.connective, on with
  | .all, false => first ++ ")" ++ s.space ++ second
  | .all, true => first ++ "," ++ s.space ++ second ++ ")"
  | .any, false => first ++ "," ++ s.space ++ second ++ ")"
  | .any, true => first ++ ")" ++ s.space ++ second

theorem text_signal (s : Spacing) (node : Compound) (on : Bool) :
    (Toggle.signal node.connective node.first node.second on).text s = node.text s on := by
  obtain ⟨name, k, first, second⟩ := node
  cases k <;> cases on <;>
    simp [text, Toggle.signal, Connective.neutral, Signal.text, Channel.reference,
      Channel.referenceOr, String.append_assoc]

def IsNameIn (nodes : List Compound) (name : String) : Prop := ∃ node ∈ nodes, node.name = name

end Compound

namespace Condition

variable {c : Condition String} {name : String}

/-- The toggle is that of a hook in the condition, or of a compound with a longer name. -/
def Supplies (name : String) (c : Condition String) (shorter : String) (t : Toggle) : Prop :=
  t.id ∈ c.atoms ∨
    ∃ other ∈ c.compounds name, other.name = t.id ∧ shorter.length < other.name.length

theorem Supplies.first {a b : Condition String} {shorter : String} {t : Toggle} (k : Connective)
    (h : Supplies (name ++ "A") a shorter t) : Supplies name (connect k [a, b]) shorter t := by
  rcases h with hhook | ⟨other, hother, hname⟩
  · exact Or.inl (List.mem_append_left _ hhook)
  · exact Or.inr ⟨other, List.mem_append_left _ (List.mem_append_left _ hother), hname⟩

theorem Supplies.second {a b : Condition String} {shorter : String} {t : Toggle} (k : Connective)
    (h : Supplies (name ++ "B") b shorter t) : Supplies name (connect k [a, b]) shorter t := by
  rcases h with hhook | ⟨other, hother, hname⟩
  · exact Or.inl (List.mem_append_right _ (List.mem_append_left _ hhook))
  · exact Or.inr ⟨other, List.mem_append_left _ (List.mem_append_right _ hother), hname⟩

theorem supplies_toggleUnder (h : c.Canonical) {shorter : String}
    (hlength : shorter.length < name.length) : Supplies name c shorter (c.toggleUnder name) := by
  rcases toggleUnder_cases h name with hhook | ⟨hid, node, hnode, hname⟩
  · exact Or.inl hhook
  · refine Or.inr ⟨node, hnode, hname.trans hid.symm, ?_⟩
    rw [hname]
    exact hlength

/-- A condition supplies the operands of its compounds. -/
theorem supplies_of_mem_compounds (h : c.Canonical) :
    ∀ node ∈ c.compounds name, Supplies name c node.name node.first ∧
      Supplies name c node.name node.second := by
  induction c, h using Canonical.induction generalizing name with
  | atom id =>
    intro node hnode
    cases hnode
  | not c hnot hc ih => exact ih
  | connect k a b ha hb iha ihb =>
    intro node hnode
    rw [compounds, operandCompounds, List.mem_append, List.mem_append, List.mem_singleton] at hnode
    rcases hnode with (hfirst | hsecond) | rfl
    · obtain ⟨hf, hs⟩ := iha node hfirst
      exact ⟨hf.first k, hs.first k⟩
    · obtain ⟨hf, hs⟩ := ihb node hsecond
      exact ⟨hf.second k, hs.second k⟩
    · have hlength : ∀ letter : Char, name.length < (name ++ letter.toString).length := by
        intro letter
        simp
      exact ⟨(supplies_toggleUnder ha (hlength 'A')).first k,
        (supplies_toggleUnder hb (hlength 'B')).second k⟩

end Condition

namespace Styling

variable {s : Styling} {changes : List Change}

/-- The name has the form of a channel that a merge declares for itself. -/
def IsLocalChannel (name : String) : Prop := ∃ n, IsChannelBelow (Identifier.numbered n) name

/-- What the compounds of a change come from. -/
theorem exists_override_of_mem_compoundsOf {number : Nat} {change : Change} {node : Compound}
    (h : node ∈ s.compoundsOf (number, change)) :
    ∃ o c, change = .override o ∧ s.resolve? o.condition = some c ∧ c.Canonical ∧
      s.takesNumber change = true ∧ node ∈ c.compounds (Identifier.numbered number) := by
  cases change with
  | set properties => cases h
  | override o =>
    rw [compoundsOf] at h
    cases hc : s.resolve? o.condition with
    | none =>
      rw [hc] at h
      cases h
    | some c =>
      rw [hc] at h
      refine ⟨o, c, rfl, hc, Condition.canonical_of_normalize hc, ?_, h⟩
      rw [takesNumber, hc, Option.any_some]
      cases c with
      | atom id => cases h
      | not c => rfl
      | connect k cs => rfl

theorem below_of_mem_localCompounds {node : Compound} (h : node ∈ s.localCompounds changes) :
    ∃ n < changes.countP s.takesNumber, Below (Identifier.numbered n) node.name := by
  induction changes using List.reverseRecOn with
  | nil => cases h
  | append_singleton changes change ih =>
    rw [localCompounds_concat] at h
    rw [List.countP_append, List.countP_singleton]
    rcases List.mem_append.mp h with hearlier | hlast
    · obtain ⟨n, hn, hbelow⟩ := ih hearlier
      exact ⟨n, by omega, hbelow⟩
    · obtain ⟨o, c, -, -, hc, htakes, hnode⟩ := exists_override_of_mem_compoundsOf hlast
      refine ⟨changes.countP s.takesNumber, ?_, Condition.below_of_mem_compounds hc node hnode⟩
      rw [if_pos htakes]
      omega

theorem isLocalChannel_of_mem {node : Compound} (h : node ∈ s.localCompounds changes) (on : Bool) :
    IsLocalChannel (node.channel on).property := by
  obtain ⟨n, -, hbelow⟩ := below_of_mem_localCompounds h
  exact ⟨n, node.channel on, hbelow, rfl⟩

/-- Every channel of a compound has its value from the change that brings the compound, and keeps
it if no change sets a property of its name. -/
theorem get?_channel_of_unwritten {node : Compound} (hnode : node ∈ s.localCompounds changes)
    (on : Bool)
    (hname : ∀ change ∈ changes, (node.channel on).property ∉ change.properties.names) :
    (changes.foldl s.apply {}).style.get? (node.channel on).property =
      some (.string (node.text s.spacing on)) := by
  induction changes using List.reverseRecOn with
  | nil => cases hnode
  | append_singleton changes change ih =>
    rw [List.forall_mem_append, List.forall_mem_singleton] at hname
    rw [localCompounds_concat] at hnode
    rw [List.foldl_append, List.foldl_cons, List.foldl_nil]
    rcases List.mem_append.mp hnode with hearlier | hlast
    · -- What the last change declares has a later number, so that this channel is another one.
      obtain ⟨n, hn, hbelow⟩ := below_of_mem_localCompounds hearlier
      rw [get?_apply_of_not_mem hname.2, ih hearlier hname.1]
      rintro m hm - ⟨channel, hother, hproperty⟩
      rw [← Channel.property_injective hproperty] at hother
      have heq := Identifier.numbered_unique hbelow hother
      rw [numbered_run] at hm
      omega
    · -- The properties of the override come after its declarations, but name none of them.
      obtain ⟨o, c, rfl, hc, -⟩ := exists_override_of_mem_compoundsOf hlast
      have hnone : o.properties.get? (node.channel on).property = none :=
        OrderedMap.get?_eq_none_iff.mpr hname.2
      rw [compoundsOf, hc, ← numbered_run] at hlast
      rw [← node.text_signal]
      exact get?_apply_declared hc
        (List.mem_flatMap.mpr ⟨node, hlast, node.mem_declarations on⟩)
        (by rw [hnone, Option.bind_none])

/-- A name that no change sets is only added as the channel of a compound. -/
theorem exists_channel_of_unwritten {name : String}
    (hname : ∀ change ∈ changes, name ∉ change.properties.names)
    (hmem : name ∈ (changes.foldl s.apply {}).style.names) :
    ∃ node ∈ s.localCompounds changes, ∃ on, (node.channel on).property = name := by
  by_contra hnone
  have hother : ∀ node ∈ s.localCompounds changes, ∀ on, (node.channel on).property ≠ name :=
    fun node hnode on heq => hnone ⟨node, hnode, on, heq⟩
  have huntouched : ∀ change ∈ changes, ¬ s.Touches name change :=
    fun change hchange htouches => hname change hchange htouches.mem_names
  have hget := get?_run hother
  rw [edited_eq_none_iff.mpr (edits_eq_nil_iff.mpr huntouched)] at hget
  exact OrderedMap.get?_eq_none_iff.mp hget hmem

section Run

variable (hnames : ∀ change ∈ changes, ∀ name ∈ change.properties.names, ¬ IsLocalChannel name)

include hnames in
theorem get?_channel_of_mem {node : Compound} (hnode : node ∈ s.localCompounds changes)
    (on : Bool) :
    (changes.foldl s.apply {}).style.get? (node.channel on).property =
      some (.string (node.text s.spacing on)) :=
  get?_channel_of_unwritten hnode on fun change hchange hmem =>
    hnames change hchange _ hmem (isLocalChannel_of_mem hnode on)

include hnames in
/-- The channels of compounds are all that a run adds to the properties it is given. -/
theorem mem_names_run_iff (name : String) :
    name ∈ (changes.foldl s.apply {}).style.names ∧ IsLocalChannel name ↔
      ∃ node ∈ s.localCompounds changes, ∃ on, (node.channel on).property = name := by
  constructor
  · rintro ⟨hmem, hlocal⟩
    exact exists_channel_of_unwritten
      (fun change hchange hin => hnames change hchange name hin hlocal) hmem
  · rintro ⟨node, hnode, on, rfl⟩
    refine ⟨?_, isLocalChannel_of_mem hnode on⟩
    exact OrderedMap.mem_names_of_get? (get?_channel_of_mem hnames hnode on)

end Run

/-- The atoms of a condition that was resolved are toggles of hooks. -/
theorem exists_hook_of_mem_atoms {o : Override} {c : Condition String}
    (hc : s.resolve? o.condition = some c) {id : String} (hid : id ∈ c.atoms) :
    ∃ hook, s.ids.get? hook = some id := by
  rw [Condition.atoms_of_normalize_resolve hc] at hid
  obtain ⟨hook, -, hget⟩ := List.mem_filterMap.mp hid
  exact ⟨hook, hget⟩

theorem operands_of_mem_localCompounds {node : Compound} (hnode : node ∈ s.localCompounds changes)
    {t : Toggle} (ht : t = node.first ∨ t = node.second) :
    (∃ hook, s.ids.get? hook = some t.id) ∨
      ∃ other ∈ s.localCompounds changes,
        other.name = t.id ∧ node.name.length < other.name.length := by
  obtain ⟨⟨number, change⟩, hin, hnode⟩ := List.mem_flatMap.mp hnode
  obtain ⟨o, c, rfl, hc, hcanonical, -, hmem⟩ := exists_override_of_mem_compoundsOf hnode
  obtain ⟨hfirst, hsecond⟩ := Condition.supplies_of_mem_compounds hcanonical node hmem
  have hsupplied : c.Supplies (Identifier.numbered number) node.name t := by
    rcases ht with rfl | rfl
    · exact hfirst
    · exact hsecond
  rcases hsupplied with hatom | ⟨other, hother, hname⟩
  · exact Or.inl (exists_hook_of_mem_atoms hc hatom)
  · refine Or.inr ⟨other, List.mem_flatMap.mpr ⟨_, hin, ?_⟩, hname⟩
    rw [compoundsOf, hc]
    exact hother

section Acyclic

variable {name other : String}
  (hids : ∀ hook id, s.ids.get? hook = some id → ∀ n, ¬ Below (Identifier.numbered n) id)

end Acyclic

end Styling

end ConditionalStyles
