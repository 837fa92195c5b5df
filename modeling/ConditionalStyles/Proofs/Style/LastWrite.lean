import ConditionalStyles.Proofs.Cascade.Choice
import ConditionalStyles.Proofs.Cascade.WiringTruth
import ConditionalStyles.Proofs.Condition.Atoms

/-!
Merges and the last effective write. A change may write a property, and the write takes effect or
not: setting a property always does, an override does where its condition holds. Step by step the
style shows the last write that took effect, in the environment that the finished style makes. The
channels that one override declares are left alone by all that comes after it.
-/
namespace ConditionalStyles

open Text Cascade

namespace Change

def properties : Change → Style
  | set properties => properties
  | override o => o.properties

/-- What is written to a property, and whether the write takes effect. An override writes nothing
where its condition is absent or its value has no text. -/
def write? (truth : String → Option Bool) (property : String) :
    Change → Option (Json.Value × Bool)
  | set properties => (properties.get? property).map fun value => (value, true)
  | override o =>
    match o.condition.meaning? truth with
    | none => none
    | some holds =>
      ((o.properties.get? property).filter fun value =>
        (ValueText.generic property value).isSome).map fun value => (value, holds)

def writes (truth : String → Option Bool) (property : String) (changes : List Change) :
    List (Json.Value × Bool) :=
  changes.filterMap (write? truth property)

theorem writes_cons (truth : String → Option Bool) (property : String) (change : Change)
    (rest : List Change) :
    writes truth property (change :: rest) =
      (change.write? truth property).toList ++ writes truth property rest := by
  cases h : change.write? truth property with
  | none => rw [writes, List.filterMap_cons_none h]; rfl
  | some write => rw [writes, List.filterMap_cons_some h]; rfl

end Change

/-- The value of the last write that takes effect. -/
def lastEffective? (writes : List (Json.Value × Bool)) : Option Json.Value :=
  ((writes.filter Prod.snd).getLast?).map Prod.fst

theorem lastEffective?_effective (past : List (Json.Value × Bool)) (value : Json.Value) :
    lastEffective? (past ++ [(value, true)]) = some value := by
  simp [lastEffective?, List.filter_append]

theorem lastEffective?_ineffective (past : List (Json.Value × Bool)) (value : Json.Value) :
    lastEffective? (past ++ [(value, false)]) = lastEffective? past := by
  simp [lastEffective?, List.filter_append]

namespace Styling

variable {s : Styling} {progress : Progress} {change : Change} {changes : List Change}
  {name property : String}

/-- The text of the last effective write, or the keyword of the fallback. -/
def expectedText (s : Styling) (property : String) (writes : List (Json.Value × Bool)) : String :=
  ((lastEffective? writes).bind (ValueText.generic property)).getD s.fallback.keyword

theorem numbered_le_apply (s : Styling) (progress : Progress) (change : Change) :
    progress.numbered ≤ (s.apply progress change).numbered := by
  cases change with
  | set properties => exact Nat.le_refl _
  | override o =>
    rw [apply, applyOverride]
    split
    · exact Nat.le_refl _
    · dsimp only
      split <;> omega

theorem numbered_le_run (s : Styling) (progress : Progress) (changes : List Change) :
    progress.numbered ≤ (changes.foldl s.apply progress).numbered := by
  induction changes generalizing progress with
  | nil => exact Nat.le_refl _
  | cons change rest ih =>
    exact Nat.le_trans (numbered_le_apply s progress change) (ih (s.apply progress change))

/-- An override that is not on a single hook takes a number. -/
theorem numbered_lt_apply {o : Override} {c : Condition String}
    (hc : s.resolve? o.condition = some c) (hatom : c.isAtom = false) :
    progress.numbered < (s.apply progress (.override o)).numbered := by
  rw [apply, applyOverride, hc]
  simp [hatom]

/-- The style after an override that can apply. -/
theorem style_apply_override {o : Override} {c : Condition String}
    (hc : s.resolve? o.condition = some c) :
    (s.apply progress (.override o)).style =
      s.overrideAll (c.toggleUnder (Identifier.numbered progress.numbered))
        (s.declare progress.style
          ((c.compounds (Identifier.numbered progress.numbered)).flatMap Compound.declarations))
        o.properties := by
  rw [apply, applyOverride, hc]
  simp only [Condition.wiring_of_canonical (Condition.canonical_of_normalize hc)]

theorem compounds_of_isAtom {c : Condition String} (h : c.isAtom = true) :
    c.compounds name = [] := by
  cases c with
  | atom id => rfl
  | not c => cases h
  | connect k cs => cases h

/-- Declaring the compounds of an override touches the channels of the number that it takes. -/
theorem get?_declare_override {o : Override} {c : Condition String}
    (hc : s.resolve? o.condition = some c)
    (h : ∀ n, progress.numbered ≤ n → n < (s.apply progress (.override o)).numbered →
      ¬ IsChannelBelow (Identifier.numbered n) name) :
    (s.declare progress.style ((c.compounds (Identifier.numbered progress.numbered)).flatMap
      Compound.declarations)).get? name = progress.style.get? name := by
  cases hatom : c.isAtom with
  | true =>
    rw [compounds_of_isAtom hatom]
    rfl
  | false =>
    apply get?_declare_of_forall_ne
    intro d hd hname
    exact h _ (Nat.le_refl _) (numbered_lt_apply hc hatom) ⟨d.channel,
      Condition.below_of_mem_declarations (Condition.canonical_of_normalize hc) hd, hname.symm⟩

/-- A channel that an override declares has its signal, unless the override writes it as well. -/
theorem get?_apply_declared {o : Override} {c : Condition String}
    (hc : s.resolve? o.condition = some c) {d : Declaration}
    (hd : d ∈ (c.compounds (Identifier.numbered progress.numbered)).flatMap Compound.declarations)
    (hnone : (o.properties.get? d.channel.property).bind (s.valueText d.channel.property) = none) :
    (s.apply progress (.override o)).style.get? d.channel.property =
      some (.string (d.signal.text s.spacing)) := by
  have hcanonical : c.Canonical := Condition.canonical_of_normalize hc
  rw [style_apply_override hc, get?_overrideAll, hnone, Option.map_none, Option.none_or]
  exact get?_declare_of_mem
    (Compound.unambiguous_declarations (Condition.nodup_compounds hcanonical)) hd

/-- A change leaves alone what it does not name, except for the channels of its own number. -/
theorem get?_apply_of_not_mem (hname : name ∉ change.properties.names)
    (h : ∀ n, progress.numbered ≤ n → n < (s.apply progress change).numbered →
      ¬ IsChannelBelow (Identifier.numbered n) name) :
    (s.apply progress change).style.get? name = progress.style.get? name := by
  cases change with
  | set properties =>
    have hnone : properties.get? name = none := OrderedMap.get?_eq_none_iff.mpr hname
    rw [apply, get?_writeAll_entries, hnone, Option.none_or]
  | override o =>
    have hnone : o.properties.get? name = none := OrderedMap.get?_eq_none_iff.mpr hname
    cases hc : s.resolve? o.condition with
    | none => rw [apply, applyOverride, hc]
    | some c =>
      rw [style_apply_override hc, get?_overrideAll, hnone, Option.bind_none, Option.map_none,
        Option.none_or, get?_declare_override hc h]

theorem get?_run_of_not_mem (hname : ∀ change ∈ changes, name ∉ change.properties.names)
    (h : ∀ n, progress.numbered ≤ n → n < (changes.foldl s.apply progress).numbered →
      ¬ IsChannelBelow (Identifier.numbered n) name) :
    (changes.foldl s.apply progress).style.get? name = progress.style.get? name := by
  induction changes generalizing progress with
  | nil => rfl
  | cons change rest ih =>
    have hstep := numbered_le_apply s progress change
    have hrun := numbered_le_run s (s.apply progress change) rest
    have hrest : (rest.foldl s.apply (s.apply progress change)).style.get? name =
        (s.apply progress change).style.get? name := by
      apply ih
      · intro other hother
        exact hname other (List.mem_cons_of_mem change hother)
      · intro n hn hlt
        exact h n (Nat.le_trans hstep hn) hlt
    refine hrest.trans (get?_apply_of_not_mem (hname change List.mem_cons_self) ?_)
    intro n hn hlt
    exact h n hn (Nat.lt_of_lt_of_le hlt hrun)

section Overriding

variable {env : Environment} {o : Override} {c : Condition String} {rest : List Change}
  {final : Progress}

/-- The channels that an override declares are still there when the style is finished. -/
theorem declares_after_run (hc : s.resolve? o.condition = some c)
    (hfinal : rest.foldl s.apply (s.apply progress (.override o)) = final)
    (hlocal : ∀ change ∈ Change.override o :: rest, ∀ name ∈ change.properties.names,
      ∀ n < final.numbered, ¬ IsChannelBelow (Identifier.numbered n) name)
    {d : Declaration}
    (hd : d ∈ (c.compounds (Identifier.numbered progress.numbered)).flatMap
      Compound.declarations) :
    (env.withStyle final.style).Declares s.spacing d := by
  have hbelow := Condition.below_of_mem_declarations (Condition.canonical_of_normalize hc) hd
  have hatom : c.isAtom = false := by
    cases hatom : c.isAtom with
    | false => rfl
    | true =>
      rw [compounds_of_isAtom hatom] at hd
      cases hd
  have hlt : progress.numbered < (s.apply progress (.override o)).numbered :=
    numbered_lt_apply hc hatom
  have hrun := numbered_le_run s (s.apply progress (.override o)) rest
  rw [hfinal] at hrun
  have hnot : ∀ change ∈ Change.override o :: rest,
      d.channel.property ∉ change.properties.names := by
    intro change hchange hmem
    exact hlocal change hchange _ hmem _ (by omega) ⟨d.channel, hbelow, rfl⟩
  have hafter : final.style.get? d.channel.property =
      (s.apply progress (.override o)).style.get? d.channel.property := by
    rw [← hfinal]
    apply get?_run_of_not_mem
    · intro change hchange
      exact hnot change (List.mem_cons_of_mem _ hchange)
    · rintro n hn - ⟨channel, hother, hproperty⟩
      rw [← Channel.property_injective hproperty] at hother
      have heq := Identifier.numbered_unique hbelow hother
      omega
  have hnone : o.properties.get? d.channel.property = none :=
    OrderedMap.get?_eq_none_iff.mpr (hnot _ List.mem_cons_self)
  apply Environment.declares_withStyle
  rw [hafter]
  exact get?_apply_declared hc hd (by rw [hnone, Option.bind_none])

/-- In the environment of the finished style, an override is wired to a toggle that shows the truth
value of its condition. -/
theorem shows_after_run (hs : s.spacing.Blank) (hc : s.resolve? o.condition = some c)
    (hfinal : rest.foldl s.apply (s.apply progress (.override o)) = final)
    (hlocal : ∀ change ∈ Change.override o :: rest, ∀ name ∈ change.properties.names,
      ∀ n < final.numbered, ¬ IsChannelBelow (Identifier.numbered n) name)
    {truth : String → Bool} (hhooks : ∀ name id, s.ids.get? name = some id →
      Nameable id.toList ∧ (env.withStyle final.style).Shows { id } (truth id)) :
    Nameable (c.toggleUnder (Identifier.numbered progress.numbered)).id.toList ∧
      (env.withStyle final.style).Shows (c.toggleUnder (Identifier.numbered progress.numbered))
        (c.evaluate truth) := by
  have hcanonical : c.Canonical := Condition.canonical_of_normalize hc
  have hname := (Identifier.isName_numbered progress.numbered).nameable
  have hatoms : ∀ id ∈ c.atoms,
      Nameable id.toList ∧ (env.withStyle final.style).Shows { id } (truth id) := by
    intro id hid
    rw [Condition.atoms_of_normalize_resolve hc] at hid
    obtain ⟨name, -, hget⟩ := List.mem_filterMap.mp hid
    exact hhooks name id hget
  refine ⟨Condition.nameable_toggleUnder hcanonical hname fun id hid => (hatoms id hid).1, ?_⟩
  exact Condition.shows_parts hcanonical hs hname hatoms
    (fun d hd => declares_after_run hc hfinal hlocal hd)
    (Identifier.numbered progress.numbered, c) (Condition.self_mem_parts _ c)

end Overriding

/-- The style shows the last effective one of the writes so far. Where an override is going to cover
the property, its text can be put into a reference. -/
structure Shown (s : Styling) (env : Environment) (property : String) (covered : Prop)
    (style : Style) (past : List (Json.Value × Bool)) : Prop where
  yields : env.Yields (s.fallbackText style property) (s.expectedText property past)
  balanced : covered → Balanced (s.fallbackText style property).toList
  present : past ≠ [] → ∃ value, style.get? property = some value ∧
    (ValueText.generic property value = none → lastEffective? past = some value)

section Showing

variable {env : Environment} {covered : Prop} {style style' : Style}
  {past : List (Json.Value × Bool)}

theorem Shown.congr (h : s.Shown env property covered style past)
    (hget : style'.get? property = style.get? property) :
    s.Shown env property covered style' past := by
  have htext : s.fallbackText style' property = s.fallbackText style property := by
    rw [fallbackText, fallbackText, hget]
  refine ⟨?_, ?_, ?_⟩
  · rw [htext]
    exact h.yields
  · rw [htext]
    exact h.balanced
  · rw [hget]
    exact h.present

theorem balanced_keyword (f : Fallback) : Balanced f.keyword.toList := by
  cases f <;> decide

/-- Setting a property takes effect at once. -/
theorem Shown.set (hvalueText : s.valueText = .generic) {properties : Style}
    (h : s.Shown env property covered progress.style past)
    (hbalanced : covered → ∀ text,
      (properties.get? property).bind (ValueText.generic property) = some text →
        Balanced text.toList) (truth : String → Option Bool) :
    s.Shown env property covered (s.apply progress (.set properties)).style
      (past ++ (Change.write? truth property (.set properties)).toList) := by
  have hget : (s.apply progress (.set properties)).style.get? property =
      (properties.get? property).or (progress.style.get? property) := by
    rw [apply, get?_writeAll_entries]
  rw [Change.write?]
  cases hvalue : properties.get? property with
  | none =>
    rw [hvalue, Option.none_or] at hget
    rw [Option.map_none, Option.toList_none, List.append_nil]
    exact h.congr hget
  | some value =>
    rw [hvalue, Option.some_or] at hget
    rw [Option.map_some, Option.toList_some]
    have hlast := lastEffective?_effective past value
    have htext : s.fallbackText (s.apply progress (.set properties)).style property =
        (ValueText.generic property value).getD s.fallback.keyword := by
      rw [fallbackText, hget, hvalueText, Option.bind_some]
    refine ⟨?_, ?_, ?_⟩
    · rw [htext, expectedText, hlast, Option.bind_some]
      exact env.yields_refl _
    · intro hcovered
      rw [htext]
      cases hgeneric : ValueText.generic property value with
      | none => exact balanced_keyword s.fallback
      | some text =>
        refine hbalanced hcovered text ?_
        rw [hvalue, Option.bind_some, hgeneric]
    · intro _
      exact ⟨value, hget, fun _ => hlast⟩

/-- A choice shows the text of the override where the toggle is on, and what was there before where
it is off. -/
theorem Shown.choice (hs : s.spacing.Blank) (hvalueText : s.valueText = .generic) {t : Toggle}
    {text : String} {value : Json.Value} {holds : Bool} (ht : Nameable t.id.toList)
    (hshows : env.Shows t holds) (hgeneric : ValueText.generic property value = some text)
    (htext : Balanced text.toList) (hcovered : covered)
    (h : s.Shown env property covered style past)
    (hget : style'.get? property =
      some (.string (s.choice t text (s.fallbackText style property)))) :
    s.Shown env property covered style' (past ++ [(value, holds)]) := by
  have hfallback := h.balanced hcovered
  have hchoice : s.fallbackText style' property =
      s.choice t text (s.fallbackText style property) := by
    rw [fallbackText, hget, hvalueText]
    rfl
  refine ⟨?_, ?_, ?_⟩
  · rw [hchoice, expectedText]
    cases holds with
    | true =>
      rw [lastEffective?_effective, Option.bind_some, hgeneric, Option.getD_some]
      exact yields_choice_of_true hs ht htext hfallback hshows
    | false =>
      rw [lastEffective?_ineffective]
      exact yields_choice_of_false hs ht htext hfallback hshows h.yields
  · intro _
    rw [hchoice]
    exact balanced_choice hs ht htext hfallback
  · intro _
    refine ⟨_, hget, ?_⟩
    intro hnone
    cases hnone

/-- What an override that can apply makes of a property. -/
theorem get?_apply_override (hvalueText : s.valueText = .generic) {o : Override}
    {c : Condition String} (hc : s.resolve? o.condition = some c)
    (hproperty : ∀ n, progress.numbered ≤ n → n < (s.apply progress (.override o)).numbered →
      ¬ IsChannelBelow (Identifier.numbered n) property) :
    (s.apply progress (.override o)).style.get? property =
      (((o.properties.get? property).bind (ValueText.generic property)).map fun text =>
        Json.Value.string (s.choice (c.toggleUnder (Identifier.numbered progress.numbered)) text
          (s.fallbackText progress.style property))).or (progress.style.get? property) := by
  have hdeclared := get?_declare_override hc hproperty
  have hfallback : s.fallbackText (s.declare progress.style ((c.compounds
      (Identifier.numbered progress.numbered)).flatMap Compound.declarations)) property =
      s.fallbackText progress.style property := by
    rw [fallbackText, fallbackText, hdeclared]
  rw [style_apply_override hc, get?_overrideAll, hfallback, hdeclared, hvalueText]

/-- An override takes effect where its condition holds, and otherwise shows what was there
before. -/
theorem Shown.override (hs : s.spacing.Blank) (hvalueText : s.valueText = .generic)
    {rest : List Change} {final : Progress} {o : Override}
    (hfinal : rest.foldl s.apply (s.apply progress (.override o)) = final)
    (hlocal : ∀ change ∈ Change.override o :: rest, ∀ name ∈ change.properties.names,
      ∀ n < final.numbered, ¬ IsChannelBelow (Identifier.numbered n) name)
    {truth : String → Bool} (hhooks : ∀ name id, s.ids.get? name = some id →
      Nameable id.toList ∧ (env.withStyle final.style).Shows { id } (truth id))
    (hproperty : ∀ n < final.numbered, ¬ IsChannelBelow (Identifier.numbered n) property)
    (hcovered : property ∈ o.properties.names → covered)
    (hbalanced : covered → ∀ text,
      (o.properties.get? property).bind (ValueText.generic property) = some text →
        Balanced text.toList)
    (h : s.Shown (env.withStyle final.style) property covered progress.style past) :
    s.Shown (env.withStyle final.style) property covered (s.apply progress (.override o)).style
      (past ++ (Change.write? (fun name => (s.ids.get? name).map truth) property
        (.override o)).toList) := by
  have hmeaning : (s.resolve? o.condition).map (Condition.evaluate truth) =
      o.condition.meaning? fun name => (s.ids.get? name).map truth :=
    Condition.evaluate_normalize_resolve s.ids.get? truth o.condition
  have hrun := numbered_le_run s (s.apply progress (.override o)) rest
  rw [hfinal] at hrun
  rw [Change.write?, ← hmeaning]
  cases hc : s.resolve? o.condition with
  | none =>
    rw [apply, applyOverride, hc]
    simpa using h
  | some c =>
    have hfresh : ∀ n, progress.numbered ≤ n → n < (s.apply progress (.override o)).numbered →
        ¬ IsChannelBelow (Identifier.numbered n) property :=
      fun n _ hlt => hproperty n (by omega)
    have hget := get?_apply_override hvalueText hc hfresh
    obtain ⟨hname, hshows⟩ := shows_after_run hs hc hfinal hlocal hhooks
    cases hvalue : o.properties.get? property with
    | none =>
      rw [hvalue, Option.bind_none, Option.map_none, Option.none_or] at hget
      simpa using h.congr hget
    | some value =>
      cases hgeneric : ValueText.generic property value with
      | none =>
        rw [hvalue, Option.bind_some, hgeneric, Option.map_none, Option.none_or] at hget
        simpa [Option.filter, hgeneric] using h.congr hget
      | some text =>
        have hcover : covered :=
          hcovered (List.mem_map.mpr ⟨_, OrderedMap.get?_eq_some_iff.mp hvalue, rfl⟩)
        have htext : Balanced text.toList := by
          refine hbalanced hcover text ?_
          rw [hvalue, Option.bind_some, hgeneric]
        rw [hvalue, Option.bind_some, hgeneric, Option.map_some, Option.some_or] at hget
        have hwrite := h.choice hs hvalueText hname hshows hgeneric htext hcover hget
        simpa [Option.filter, hgeneric] using hwrite

/-- From whatever was merged before, a run of changes shows the last effective write. -/
theorem Shown.run (hs : s.spacing.Blank) (hvalueText : s.valueText = .generic) {final : Progress}
    {truth : String → Bool} (hhooks : ∀ name id, s.ids.get? name = some id →
      Nameable id.toList ∧ (env.withStyle final.style).Shows { id } (truth id))
    (hproperty : ∀ n < final.numbered, ¬ IsChannelBelow (Identifier.numbered n) property)
    (hfinal : changes.foldl s.apply progress = final)
    (hlocal : ∀ change ∈ changes, ∀ name ∈ change.properties.names,
      ∀ n < final.numbered, ¬ IsChannelBelow (Identifier.numbered n) name)
    (hcovered : ∀ o, Change.override o ∈ changes → property ∈ o.properties.names → covered)
    (hbalanced : covered → ∀ change ∈ changes, ∀ text,
      (change.properties.get? property).bind (ValueText.generic property) = some text →
        Balanced text.toList)
    (h : s.Shown (env.withStyle final.style) property covered progress.style past) :
    s.Shown (env.withStyle final.style) property covered final.style
      (past ++ Change.writes (fun name => (s.ids.get? name).map truth) property changes) := by
  induction changes generalizing progress past with
  | nil =>
    rw [← hfinal] at h ⊢
    rw [Change.writes, List.filterMap_nil, List.append_nil]
    exact h
  | cons change rest ih =>
    rw [Change.writes_cons, ← List.append_assoc]
    apply ih hfinal
    · intro other hother
      exact hlocal other (List.mem_cons_of_mem change hother)
    · intro o ho
      exact hcovered o (List.mem_cons_of_mem change ho)
    · intro hcover other hother
      exact hbalanced hcover other (List.mem_cons_of_mem change hother)
    · have hhead : covered → ∀ text,
          (change.properties.get? property).bind (ValueText.generic property) = some text →
            Balanced text.toList :=
        fun hcover => hbalanced hcover change List.mem_cons_self
      cases change with
      | set properties => exact h.set hvalueText hhead _
      | override o =>
        exact h.override hs hvalueText hfinal hlocal hhooks hproperty
          (hcovered o List.mem_cons_self) hhead

end Showing

end Styling

end ConditionalStyles
