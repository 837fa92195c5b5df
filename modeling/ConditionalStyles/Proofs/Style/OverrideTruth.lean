import ConditionalStyles.Proofs.Style.ValueLaw

/-!
Truth values after an override. Hooks show their values before it, and still do as long as nothing
that they depend on is changed by the override. Then the toggle that the override chooses by shows
the value of its condition, in the style where the choices are written, and so do the toggles of all
conditions inside. Names that cannot be spelled in a reference, and writes to channels that the
override depends on itself, hide the value.
-/
namespace ConditionalStyles

open Text Cascade

/-- The toggle shows the value, whatever the altered names are declared with. -/
def Cascade.Environment.ShowsApart (env : Environment) (altered : String → Prop) (t : Toggle)
    (value : Bool) : Prop :=
  ∀ env' : Environment, (∀ name, ¬ altered name → env' name = env name) → env'.Shows t value

/-- It is enough that one channel has no text and the other one is declared blank. -/
theorem Cascade.Environment.showsApart_of_text? {env : Environment} {altered : String → Prop}
    {id : String} {value : Bool} {b : List Char}
    (hkept : ∀ on, ¬ altered (Channel.property ⟨id, on⟩))
    (hinvalid : env.text? (Channel.property ⟨id, value⟩) = none)
    (hblank : env.text? (Channel.property ⟨id, !value⟩) = some b) (hb : Text.Blank b) :
    env.ShowsApart altered { id } value := by
  intro env' hagrees
  have hsame (on : Bool) :
      env'.text? (Channel.property ⟨id, on⟩) = env.text? (Channel.property ⟨id, on⟩) := by
    rw [text?, text?, hagrees _ (hkept on)]
  have hchannel (on : Bool) : ({ id } : Toggle).channel on = ⟨id, on⟩ := by
    cases on <;> rfl
  refine ⟨?_, b, hb, ?_⟩
  · rw [IsInvalid, hchannel]
    exact .undeclared ((hsame value).trans hinvalid)
  · rw [hchannel]
    exact .declared ((hsame !value).trans hblank) (.blank hb)

namespace Styling

variable {s : Styling} {progress : Progress} {o : Override} {c : Condition String}

/-- The override has a text for the name, or declares it as a channel of one of its compounds. -/
def Alters (s : Styling) (number : Nat) (o : Override) (name : String) : Prop :=
  s.Touches name (.override o) ∨
    ∃ node ∈ s.compoundsOf (number, .override o), ∃ on, (node.channel on).property = name

theorem touches_of_text (hc : s.resolve? o.condition = some c) {property text : String}
    (htext : (o.properties.get? property).bind (s.valueText property) = some text) :
    s.Touches property (.override o) := by
  obtain ⟨value, hvalue, htext⟩ := Option.bind_eq_some_iff.mp htext
  exact ⟨by rw [hc]; rfl, value, hvalue, by rw [htext]; rfl⟩

/-- What an override does not change is as it was before. -/
theorem get?_apply_of_not_alters {name : String} (h : ¬ s.Alters progress.numbered o name) :
    (s.apply progress (.override o)).style.get? name = progress.style.get? name := by
  have hother : ∀ node ∈ s.compoundsOf (progress.numbered, .override o), ∀ on,
      (node.channel on).property ≠ name :=
    fun node hnode on hname => h (Or.inr ⟨node, hnode, on, hname⟩)
  have huntouched : ¬ s.Touches name (.override o) := fun htouches => h (Or.inl htouches)
  rw [get?_apply hother, edit?_eq_none_iff.mpr huntouched, Option.map_none, Option.none_or]

section Unwritten

variable (hc : s.resolve? o.condition = some c)
  (hwritten : ∀ node ∈ s.compoundsOf (progress.numbered, .override o), ∀ on,
    ¬ s.Touches (node.channel on).property (.override o))

include hc hwritten

/-- An override that writes none of its own channels leaves them declared. -/
theorem declares_apply (env : Environment) :
    ∀ d ∈ (c.compounds (Identifier.numbered progress.numbered)).flatMap Compound.declarations,
      (env.withStyle (s.apply progress (.override o)).style).Declares s.spacing d := by
  intro d hd
  apply Environment.declares_withStyle
  apply get?_apply_declared hc hd
  obtain ⟨node, hnode, hin⟩ := List.mem_flatMap.mp hd
  have huntouched : ¬ s.Touches d.channel.property (.override o) := by
    rw [Compound.eq_channel_of_mem_declarations hin]
    refine hwritten node ?_ d.channel.on
    rw [compoundsOf, hc]
    exact hnode
  exact Option.eq_none_iff_forall_ne_some.mpr fun text htext =>
    huntouched (touches_of_text hc htext)

/-- It writes the choice by the toggle of its condition, over what was there before. -/
theorem get?_apply_written {property text : String}
    (htext : (o.properties.get? property).bind (s.valueText property) = some text) :
    (s.apply progress (.override o)).style.get? property =
      some (.string (s.choice (c.toggleUnder (Identifier.numbered progress.numbered)) text
        (s.fallbackText progress.style property))) := by
  have htouches := touches_of_text hc htext
  have hother : ∀ node ∈ s.compoundsOf (progress.numbered, .override o), ∀ on,
      (node.channel on).property ≠ property := by
    rintro node hnode on rfl
    exact hwritten node hnode on htouches
  have hedit : s.edit? property (progress.numbered, .override o) =
      some (.cover (c.toggleUnder (Identifier.numbered progress.numbered)) text) := by
    obtain ⟨value, hvalue, htext⟩ := Option.bind_eq_some_iff.mp htext
    simp [edit?, hc, hvalue, htext]
  rw [get?_apply hother, hedit, Option.map_some, Option.some_or, Edit.result_cover, fallbackText]

end Unwritten

/-- Hooks show their truth values before an override, whatever the names that it changes are
declared with. Afterwards every value that it has written is the choice by the toggle of its
condition; this toggle shows the value of the condition in the same style, and so do the toggles of
all conditions inside. Names of hooks can be spelled in a reference, and the override writes none of
the channels that it declares. -/
theorem override_toggles_show_truth (s : Styling) (readable : Bool)
    (hspacing : s.spacing = .ofReadable readable) (progress : Progress) (o : Override)
    (c : Condition String) (hc : s.resolve? o.condition = some c) (env : Environment)
    (truth : String → Bool) (hnames : ∀ id ∈ c.atoms, Nameable id.toList)
    (hwritten : ∀ node ∈ s.compoundsOf (progress.numbered, .override o), ∀ on,
      ¬ s.Touches (node.channel on).property (.override o))
    (hhooks : ∀ id ∈ c.atoms, (env.withStyle progress.style).ShowsApart
      (s.Alters progress.numbered o) { id } (truth id)) :
    let name := Identifier.numbered progress.numbered
    let t := c.toggleUnder name
    let style := (s.applyOverride progress o).style
    (t.id ∈ c.atoms ∨ t.id = name) ∧
      (env.withStyle style).Shows t (c.evaluate truth) ∧
      (∀ property text, (o.properties.get? property).bind (s.valueText property) = some text →
        style.get? property =
          some (.string (s.choice t text (s.fallbackText progress.style property)))) ∧
      ∀ part ∈ c.parts name,
        (env.withStyle style).Shows (part.2.toggleUnder part.1) (part.2.evaluate truth) := by
  intro name t style
  have hs : s.spacing.Blank := by
    rw [hspacing]
    exact Spacing.ofReadable_blank readable
  have hcanonical : c.Canonical := Condition.canonical_of_normalize hc
  have hname : Nameable name.toList := (Identifier.isName_numbered progress.numbered).nameable
  have hatoms : ∀ id ∈ c.atoms,
      Nameable id.toList ∧ (env.withStyle style).Shows { id } (truth id) := by
    intro id hid
    refine ⟨hnames id hid, hhooks id hid (env.withStyle style) ?_⟩
    intro property hkept
    exact env.withStyle_congr (get?_apply_of_not_alters hkept)
  have hparts := Condition.shows_parts hcanonical hs hname hatoms (declares_apply hc hwritten env)
  refine ⟨?_, hparts (name, c) (Condition.self_mem_parts name c), ?_, hparts⟩
  · exact (Condition.toggleUnder_cases hcanonical name).imp_right And.left
  · intro property text htext
    exact get?_apply_written hc hwritten htext

/-- A negated conjunction with a negated operand, over hooks that both hold, one of them with
parentheses in its name: the choice is read with exchanged channels, and it falls back to what was
there before. -/
theorem override_negation_shows_truth :
    let s : Styling := ⟨.ofList [("hover", "h"), ("wide", "x(y)")], .unset, {}, .readable, .generic⟩
    let o : Override := ⟨.not (.all [.atom "hover", .all [.not (.atom "wide")]]),
      .ofList [("color", .string "red")]⟩
    let progress : Progress := ⟨.ofList [("color", .string "blue")], 7⟩
    let env : Environment := fun name =>
      if name = "--h-1" ∨ name = "--x(y)-1" then some "initial" else some ""
    let style := (s.applyOverride progress o).style
    s.resolve? o.condition = some (.not (.all [.atom "h", .not (.atom "x(y)")])) ∧
      (style.get? "color").bind Json.Value.string? =
        some "var(--cond7-0, red) var(--cond7-1, blue)" ∧
      (env.withStyle style).Shows ⟨"cond7", true⟩ true ∧
      (env.withStyle style).Shows ⟨"cond7", false⟩ false ∧
      (env.withStyle style).Shows ⟨"x(y)", true⟩ false := by
  intro s o progress env style
  have hc : s.resolve? o.condition = some (.not (.all [.atom "h", .not (.atom "x(y)")])) := by
    decide
  have hunwritten : ∀ node ∈ s.compoundsOf (7, .override o), ∀ on,
      (node.channel on).property ∉ o.properties.names := by
    decide +kernel
  have hkept : ∀ id ∈ ["h", "x(y)"], ∀ on, Channel.property ⟨id, on⟩ ∉ o.properties.names ∧
      ∀ node ∈ s.compoundsOf (7, .override o), ∀ on',
        (node.channel on').property ≠ Channel.property ⟨id, on⟩ := by
    decide +kernel
  have htexts : ∀ id ∈ ["h", "x(y)"],
      (env.withStyle progress.style).text? (Channel.property ⟨id, true⟩) = none ∧
      (env.withStyle progress.style).text? (Channel.property ⟨id, false⟩) = some [] := by
    decide +kernel
  have hhooks : ∀ id ∈ ["h", "x(y)"], (env.withStyle progress.style).ShowsApart
      (s.Alters progress.numbered o) { id } true := by
    intro id hid
    obtain ⟨hinvalid, hblank⟩ := htexts id hid
    refine Environment.showsApart_of_text? ?_ hinvalid hblank blank_nil
    rintro on (htouches | ⟨node, hnode, on', hname⟩)
    · exact (hkept id hid on).1 htouches.mem_names
    · exact (hkept id hid on).2 node hnode on' hname
  obtain ⟨-, hwhole, hchoice, hparts⟩ := override_toggles_show_truth s true rfl progress o _ hc env
    (fun _ => true) (by decide)
    (fun node hnode on htouches => hunwritten node hnode on htouches.mem_names) hhooks
  have hname : Identifier.numbered progress.numbered = "cond7" := by decide
  rw [hname] at hwhole hparts
  refine ⟨hc, ?_, ?_, ?_, ?_⟩
  · rw [hchoice "color" "red" rfl]
    decide +kernel
  · exact hwhole
  · exact hparts ("cond7", .all [.atom "h", .not (.atom "x(y)")]) (by decide)
  · exact hparts ("cond7B", .not (.atom "x(y)")) (by decide)

/-- Two hooks, the first with the given name. -/
def twoHooks (id : String) : Styling :=
  ⟨.ofList [("a", id), ("b", "b")], .unset, {}, .compact, .generic⟩

/-- Both hooks hold. -/
def bothHold (id : String) : Environment := fun name =>
  if name = Channel.property ⟨id, true⟩ ∨ name = "--b-1" then some "initial"
  else if name = Channel.property ⟨id, false⟩ ∨ name = "--b-0" then some " " else none

/-- Before an override on two hooks both of them hold, and neither is named like a numbered toggle.
Yet afterwards the channel of the other truth value of their conjunction is not blank. -/
def ConjunctionHidden (id property text : String) : Prop :=
  let o : Override := ⟨.all [.atom "a", .atom "b"], .ofList [(property, .string text)]⟩
  let c : Condition String := .all [.atom id, .atom "b"]
  (twoHooks id).resolve? o.condition = some c ∧ c.toggleUnder "cond0" = ⟨"cond0", false⟩ ∧
    (∀ hook ∈ c.atoms, (bothHold id).Shows { id := hook } true ∧
      ∀ n, ¬ Below (Identifier.numbered n) hook) ∧
    c.evaluate (fun _ => true) = true ∧
    ¬ ((bothHold id).withStyle ((twoHooks id).applyOverride {} o).style).IsBlank ⟨"cond0", false⟩

theorem conjunctionHidden_of_resolveWithin {id property text : String} {r : Option (List Char)}
    (hresolved : (twoHooks id).resolve? (.all [.atom "a", .atom "b"]) =
      some (.all [.atom id, .atom "b"]))
    (htexts : ∀ hook ∈ [id, "b"], hook.toList.head? ≠ some 'c' ∧
      (bothHold id).text? (Channel.property ⟨hook, true⟩) = none ∧
      (bothHold id).text? (Channel.property ⟨hook, false⟩) = some [' '])
    (hr : resolveWithin ((bothHold id).withStyle ((twoHooks id).applyOverride {}
      ⟨.all [.atom "a", .atom "b"], .ofList [(property, .string text)]⟩).style) 40
        (.property "--cond0-0") = some r)
    (hvisible : ∀ b, r = some b → ¬ Text.Blank b) : ConjunctionHidden id property text := by
  have hblank : Text.Blank [' '] := by decide
  refine ⟨hresolved, rfl, ?_, rfl, ?_⟩
  · intro hook hhook
    obtain ⟨hstart, htrue, hfalse⟩ := htexts hook hhook
    refine ⟨⟨.undeclared htrue, [' '], hblank, .declared hfalse (.blank hblank)⟩, ?_⟩
    rintro n ⟨path, -, hpath⟩
    rw [hpath, Identifier.numbered_toList] at hstart
    exact hstart rfl
  · rintro ⟨b, hb, hresolves⟩
    exact hvisible b (Resolves.unique (.of_resolveWithin hr) hresolves) hb

/-- Names with a single parenthesis or with a comma cannot be spelled in a reference, which ends
where the name should go on. Where an override writes a channel of its own toggle or of one of its
hooks, the channel has the choice for its value and nothing else. -/
theorem override_hides_truth :
    ConjunctionHidden "a)" "color" "red" ∧ ConjunctionHidden "a(" "color" "red" ∧
      ConjunctionHidden "a," "color" "red" ∧
      ConjunctionHidden "a" "--cond0-0" "var(--undeclared)" ∧
      ConjunctionHidden "a" "--a-0" "var(--undeclared)" := by
  refine ⟨?_, ?_, ?_, ?_, ?_⟩
  · exact conjunctionHidden_of_resolveWithin (r := none) (by decide) (by decide) (by decide +kernel)
      (by simp)
  · exact conjunctionHidden_of_resolveWithin (r := some "var(--a(-0) ".toList) (by decide)
      (by decide) (by decide +kernel) (by rintro b ⟨⟩; decide)
  · exact conjunctionHidden_of_resolveWithin (r := some "-0 ".toList) (by decide) (by decide)
      (by decide +kernel) (by rintro b ⟨⟩; decide)
  · exact conjunctionHidden_of_resolveWithin (r := none) (by decide) (by decide) (by decide +kernel)
      (by simp)
  · exact conjunctionHidden_of_resolveWithin (r := none) (by decide) (by decide) (by decide +kernel)
      (by simp)

end Styling

end ConditionalStyles
