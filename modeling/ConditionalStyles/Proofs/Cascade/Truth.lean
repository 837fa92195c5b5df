import ConditionalStyles.Proofs.Cascade.Environment
import ConditionalStyles.Proofs.Condition.Meaning
import ConditionalStyles.Toggle

/-!
Truth values of toggles. In an environment a toggle shows a truth value when the channel of that
value is invalid and the other one is blank. A toggle that is settled shows the value it is settled
to, and a compound of two toggles shows the value of the compound.
-/
namespace ConditionalStyles

open Text Cascade

/-- Only blanks are written between the parts of a text. -/
structure Spacing.Blank (s : Spacing) : Prop where
  space : Text.Blank s.space.toList
  newline : Text.Blank s.newline.toList
  indent : Text.Blank s.indent.toList
  blank : Text.Blank s.blank.toList

theorem Spacing.ofReadable_blank (wanted : Bool) : (Spacing.ofReadable wanted).Blank := by
  cases wanted
  · exact ⟨by decide, by decide, by decide, by decide⟩
  · exact ⟨by decide, by decide, by decide, by decide⟩

theorem Spacing.Blank.indentation {s : Spacing} (hs : s.Blank) (level : Nat) :
    Text.Blank (s.indentation level).toList := by
  rw [Spacing.indentation, String.toList_join]
  apply blank_flatMap
  intro part hpart
  rw [List.eq_of_mem_replicate hpart]
  exact hs.indent

namespace Channel

def digit (c : Channel) : Char := if c.on then '1' else '0'

theorem property_toList (c : Channel) :
    c.property.toList = '-' :: ('-' :: (c.toggle.toList ++ ['-']) ++ [c.digit]) := by
  cases h : c.on <;> simp [property, digit, h]

theorem trim_property (c : Channel) : trim c.property.toList = c.property.toList := by
  rw [property_toList]
  apply trim_eq_self
  · decide
  · cases h : c.on <;> simp only [digit, h] <;> decide

theorem property_injective {c d : Channel} (h : c.property = d.property) : c = d := by
  have hlist := congrArg String.toList h
  have hsame : c.toggle.toList ++ ['-', c.digit] = d.toggle.toList ++ ['-', d.digit] := by
    simpa [property_toList] using hlist
  obtain ⟨htoggle, hdigit⟩ := List.append_inj' hsame rfl
  have hon : c.on = d.on := by
    cases hc : c.on <;> cases hd : d.on <;> simp [digit, hc, hd] at hdigit ⊢
  cases c
  cases d
  simp only [mk.injEq]
  exact ⟨String.toList_inj.mp htoggle, hon⟩

theorem nameable_property {c : Channel} (h : Nameable c.toggle.toList) :
    Nameable c.property.toList := by
  have hopen : Nameable ['-', '-'] := by decide
  have hclose : Nameable ['-', c.digit] := by
    cases hon : c.on <;> simp only [digit, hon] <;> decide
  have hname := nameable_append (nameable_append hopen h) hclose
  rw [property_toList]
  simpa using hname

theorem reference?_reference {c : Channel} (h : Nameable c.toggle.toList) (rest : List Char) :
    reference? (c.reference.toList ++ rest) = some (⟨c.property, none⟩, rest) := by
  have hread := reference?_name (nameable_property h) c.trim_property rest
  rw [String.ofList_toList] at hread
  simpa [reference] using hread

theorem reference?_referenceOr {c : Channel} (h : Nameable c.toggle.toList) {s : Spacing}
    {fallback : String} (hfallback : Balanced (s.space.toList ++ fallback.toList))
    (rest : List Char) :
    reference? ((c.referenceOr s fallback).toList ++ rest) =
      some (⟨c.property, some (s.space.toList ++ fallback.toList)⟩, rest) := by
  have hread := reference?_fallback (nameable_property h) c.trim_property hfallback rest
  rw [String.ofList_toList] at hread
  simpa [referenceOr] using hread

theorem balanced_reference {c : Channel} (h : Nameable c.toggle.toList) :
    Balanced c.reference.toList := by
  have hvar : Balanced ['v', 'a', 'r'] := by decide
  have hall := balanced_append hvar (balanced_enclosed (nameable_property h).1)
  simpa [reference] using hall

theorem balanced_referenceOr {c : Channel} (h : Nameable c.toggle.toList) {s : Spacing}
    {fallback : String} (hfallback : Balanced (s.space.toList ++ fallback.toList)) :
    Balanced (c.referenceOr s fallback).toList := by
  have hvar : Balanced ['v', 'a', 'r'] := by decide
  have hcomma : Balanced [','] := by decide
  have hargs := balanced_append (nameable_property h).1 (balanced_append hcomma hfallback)
  have hall := balanced_append hvar (balanced_enclosed hargs)
  simpa [referenceOr] using hall

end Channel

/-- No channel is declared in two ways. -/
def Declaration.Unambiguous (ds : List Declaration) : Prop :=
  ∀ d ∈ ds, ∀ e ∈ ds, e.channel = d.channel → e = d

namespace Toggle

theorem channel_toggle (t : Toggle) (on : Bool) : (t.channel on).toggle = t.id := rfl

theorem nameable_channel {t : Toggle} (h : Nameable t.id.toList) (on : Bool) :
    Nameable (t.channel on).toggle.toList := by
  rw [channel_toggle]
  exact h

theorem toggle_of_mem_wire {id : String} {k : Connective} {a b : Toggle} {d : Declaration}
    (h : d ∈ wire id k a b) : d.channel.toggle = id := by
  simp only [wire, List.mem_cons, List.not_mem_nil, or_false] at h
  rcases h with rfl | rfl <;> rfl

theorem signal_of_mem_wire {id : String} {k : Connective} {a b : Toggle} {d : Declaration}
    (h : d ∈ wire id k a b) : d.signal = signal k a b d.channel.on := by
  simp only [wire, List.mem_cons, List.not_mem_nil, or_false] at h
  rcases h with rfl | rfl <;> rfl

theorem toggle_of_mem_settle {id : String} {value : Bool} {d : Declaration}
    (h : d ∈ settle id value) : d.channel.toggle = id := by
  simp only [settle, List.mem_cons, List.not_mem_nil, or_false] at h
  rcases h with rfl | rfl <;> rfl

theorem unambiguous_wire (id : String) (k : Connective) (a b : Toggle) :
    Declaration.Unambiguous (wire id k a b) := by
  intro d hd e he hchannel
  simp only [wire, List.mem_cons, List.not_mem_nil, or_false] at hd he
  rcases hd with rfl | rfl <;> rcases he with rfl | rfl <;> simp_all

theorem unambiguous_settle (id : String) (value : Bool) :
    Declaration.Unambiguous (settle id value) := by
  intro d hd e he hchannel
  simp only [settle, List.mem_cons, List.not_mem_nil, or_false] at hd he
  rcases hd with rfl | rfl <;> rcases he with rfl | rfl <;> simp_all

end Toggle

namespace Cascade

theorem balanced_blank {b : List Char} (hb : Text.Blank b) : Balanced b := by
  apply balanced_of_forall_ne
  intro c hc
  refine ⟨?_, ?_⟩
  · rintro rfl
    exact absurd (hb _ hc) (by decide)
  · rintro rfl
    exact absurd (hb _ hc) (by decide)

namespace Environment

def IsInvalid (env : Environment) (c : Channel) : Prop := Resolves env (.property c.property) none

def IsBlank (env : Environment) (c : Channel) : Prop :=
  ∃ b, Text.Blank b ∧ Resolves env (.property c.property) (some b)

/-- The channel of the truth value is invalid, and the other one is blank. -/
def Shows (env : Environment) (t : Toggle) (value : Bool) : Prop :=
  env.IsInvalid (t.channel value) ∧ env.IsBlank (t.channel !value)

/-- The channel has its signal, up to blanks in front. -/
def Declares (env : Environment) (s : Spacing) (d : Declaration) : Prop :=
  ∃ gap : String, Text.Blank gap.toList ∧
    env d.channel.property = some (gap ++ d.signal.text s)

variable {env : Environment} {s : Spacing}

theorem IsBlank.not_isInvalid {c : Channel} (h : env.IsBlank c) : ¬ env.IsInvalid c := by
  intro hinvalid
  obtain ⟨b, -, hb⟩ := h
  cases hinvalid.unique hb

theorem Shows.isInvalid_iff {t : Toggle} {value : Bool} (h : env.Shows t value) (on : Bool) :
    env.IsInvalid (t.channel on) ↔ value = on := by
  constructor
  · intro hinvalid
    by_cases heq : value = on
    · exact heq
    · have hon : on = !value := Bool.eq_not.mpr fun hne => heq hne.symm
      subst hon
      exact absurd hinvalid h.2.not_isInvalid
  · rintro rfl
    exact h.1

theorem Shows.isBlank_of_not {t : Toggle} {value : Bool} (h : env.Shows t value) {on : Bool}
    (hon : ¬ env.IsInvalid (t.channel on)) : env.IsBlank (t.channel on) := by
  have hne : on ≠ value := by
    rintro rfl
    exact hon h.1
  rw [Bool.eq_not.mpr hne]
  exact h.2

theorem Shows.swap {t : Toggle} {value : Bool} (h : env.Shows t value) :
    env.Shows t.swap !value := by
  have hchannel (on : Bool) : t.swap.channel (!on) = t.channel on := by
    cases on <;> cases hs : t.swapped <;> simp [Toggle.swap, Toggle.channel, hs]
  refine ⟨?_, ?_⟩
  · rw [hchannel]
    exact h.1
  · rw [hchannel]
    exact h.2

theorem text?_of_invalid {c : Channel} (h : env.Declares s ⟨c, .invalid⟩) :
    env.text? c.property = none := by
  obtain ⟨gap, hgap, henv⟩ := h
  have htrim : trim (gap ++ "initial").toList = "initial".toList := by
    rw [String.toList_append, trim_blank_append hgap]
    decide
  simp only [text?, henv, Signal.text, htrim, if_true]

theorem Declares.isInvalid {c : Channel} (h : env.Declares s ⟨c, .invalid⟩) : env.IsInvalid c :=
  .undeclared (text?_of_invalid h)

theorem Declares.isBlank (hs : s.Blank) {c : Channel} (h : env.Declares s ⟨c, .blank⟩) :
    env.IsBlank c := by
  obtain ⟨gap, hgap, henv⟩ := h
  have hblank : Text.Blank (gap ++ s.blank).toList := by
    rw [String.toList_append]
    exact blank_append hgap hs.blank
  have htext : env.text? c.property = some (gap ++ s.blank).toList := by
    have hne : trim (gap ++ s.blank).toList ≠ "initial".toList := by
      rw [trim_blank hblank]
      decide
    simp only [text?, henv, Signal.text, if_neg hne]
  exact ⟨_, hblank, .declared htext (.blank hblank)⟩

/-- A channel that starts with a reference resolves as its signal does. -/
theorem Declares.resolves {c : Channel} {signal : Signal} (h : env.Declares s ⟨c, signal⟩)
    {cs : List Char} (hcs : (signal.text s).toList = 'v' :: cs) {r : Option (List Char)}
    (hr : Resolves env (.text (signal.text s).toList) r) :
    ∃ gap, Text.Blank gap ∧ Resolves env (.property c.property) (r.map (gap ++ ·)) := by
  obtain ⟨gap, hgap, henv⟩ := h
  have htext : env.text? c.property = some (gap ++ signal.text s).toList := by
    have hne : trim (gap ++ signal.text s).toList ≠ "initial".toList := by
      rw [String.toList_append, trim_blank_append hgap, hcs]
      obtain ⟨rest, hrest⟩ := trim_cons (show Text.isBlank 'v' = false by decide) cs
      rw [hrest]
      intro heq
      exact absurd (List.cons.inj heq).1 (by decide)
    simp only [text?, henv, if_neg hne]
  refine ⟨gap.toList, hgap, .declared htext ?_⟩
  rw [String.toList_append]
  exact .blank_append hgap hr

section Compounds

variable {a b c : Channel} (ha : Nameable a.toggle.toList) (hb : Nameable b.toggle.toList)
  (hs : s.Blank)

theorem text_both_toList (s : Spacing) (a b : Channel) :
    ((Signal.both a b).text s).toList =
      a.reference.toList ++ (s.space.toList ++ (b.reference.toList ++ [])) := by
  simp [Signal.text]

theorem text_both_start (s : Spacing) (a b : Channel) :
    ∃ cs, ((Signal.both a b).text s).toList = 'v' :: cs :=
  ⟨_, by rw [text_both_toList]; simp [Channel.reference]; rfl⟩

theorem text_either_start (s : Spacing) (a b : Channel) :
    ∃ cs, ((Signal.either a b).text s).toList = 'v' :: cs :=
  ⟨_, by simp [Signal.text, Channel.referenceOr]; rfl⟩

include ha in
theorem Declares.both_left (h : env.Declares s ⟨c, .both a b⟩) (hinvalid : env.IsInvalid a) :
    env.IsInvalid c := by
  have href := Channel.reference?_reference ha (s.space.toList ++ (b.reference.toList ++ []))
  have htext : Resolves env (.text ((Signal.both a b).text s).toList) none := by
    rw [text_both_toList]
    exact .invalid href hinvalid (by simp)
  obtain ⟨cs, hcs⟩ := text_both_start s a b
  obtain ⟨gap, -, hr⟩ := h.resolves hcs htext
  exact hr

include ha hb hs in
theorem Declares.both_right (h : env.Declares s ⟨c, .both a b⟩) (hblank : env.IsBlank a)
    (hinvalid : env.IsInvalid b) : env.IsInvalid c := by
  obtain ⟨va, -, hva⟩ := hblank
  have hrefb := Channel.reference?_reference hb []
  have hrest : Resolves env (.text (b.reference.toList ++ [])) none :=
    .invalid hrefb hinvalid (by simp)
  have hspace := Resolves.blank_append hs.space hrest
  have hrefa := Channel.reference?_reference ha (s.space.toList ++ (b.reference.toList ++ []))
  have htext : Resolves env (.text ((Signal.both a b).text s).toList) none := by
    rw [text_both_toList]
    exact .value hrefa hva hspace
  obtain ⟨cs, hcs⟩ := text_both_start s a b
  obtain ⟨gap, -, hr⟩ := h.resolves hcs htext
  exact hr

include ha hb hs in
theorem Declares.both_blank (h : env.Declares s ⟨c, .both a b⟩) (hblanka : env.IsBlank a)
    (hblankb : env.IsBlank b) : env.IsBlank c := by
  obtain ⟨va, hblankva, hva⟩ := hblanka
  obtain ⟨vb, hblankvb, hvb⟩ := hblankb
  have hrefb := Channel.reference?_reference hb []
  have hrest : Resolves env (.text (b.reference.toList ++ [])) (some (vb ++ [])) :=
    .value hrefb hvb .nil
  have hspace := Resolves.blank_append hs.space hrest
  have hrefa := Channel.reference?_reference ha (s.space.toList ++ (b.reference.toList ++ []))
  have htext : Resolves env (.text ((Signal.both a b).text s).toList)
      (some (va ++ (s.space.toList ++ (vb ++ [])))) := by
    rw [text_both_toList]
    exact .value hrefa hva hspace
  obtain ⟨cs, hcs⟩ := text_both_start s a b
  obtain ⟨gap, hgap, hr⟩ := h.resolves hcs htext
  refine ⟨_, ?_, hr⟩
  exact blank_append hgap (blank_append hblankva
    (blank_append hs.space (blank_append hblankvb blank_nil)))

include hb hs in
theorem balanced_fallback : Balanced (s.space.toList ++ b.reference.toList) :=
  balanced_append (balanced_blank hs.space) (Channel.balanced_reference hb)

include ha hb hs in
theorem reference?_either (rest : List Char) :
    reference? (((Signal.either a b).text s).toList ++ rest) =
      some (⟨a.property, some (s.space.toList ++ b.reference.toList)⟩, rest) :=
  Channel.reference?_referenceOr ha (balanced_fallback hb hs) rest

include ha hb hs in
theorem Declares.either_left (h : env.Declares s ⟨c, .either a b⟩) (hblank : env.IsBlank a) :
    env.IsBlank c := by
  obtain ⟨va, hblankva, hva⟩ := hblank
  have href := reference?_either ha hb hs []
  rw [List.append_nil] at href
  have htext : Resolves env (.text ((Signal.either a b).text s).toList) (some (va ++ [])) :=
    .value href hva .nil
  obtain ⟨cs, hcs⟩ := text_either_start s a b
  obtain ⟨gap, hgap, hr⟩ := h.resolves hcs htext
  exact ⟨_, blank_append hgap (blank_append hblankva blank_nil), hr⟩

include ha hb hs in
theorem Declares.either_right (h : env.Declares s ⟨c, .either a b⟩)
    (hinvalid : env.IsInvalid a) (hblank : env.IsBlank b) : env.IsBlank c := by
  obtain ⟨vb, hblankvb, hvb⟩ := hblank
  have href := reference?_either ha hb hs []
  rw [List.append_nil] at href
  have hrefb := Channel.reference?_reference hb []
  rw [List.append_nil] at hrefb
  have hvalue : Resolves env (.text b.reference.toList) (some (vb ++ [])) := .value hrefb hvb .nil
  have hfallback := Resolves.blank_append hs.space hvalue
  have htext : Resolves env (.text ((Signal.either a b).text s).toList)
      (some ((s.space.toList ++ (vb ++ [])) ++ [])) := .fallback href hinvalid rfl hfallback .nil
  obtain ⟨cs, hcs⟩ := text_either_start s a b
  obtain ⟨gap, hgap, hr⟩ := h.resolves hcs htext
  refine ⟨_, ?_, hr⟩
  exact blank_append hgap (blank_append
    (blank_append hs.space (blank_append hblankvb blank_nil)) blank_nil)

include ha hb hs in
theorem Declares.either_invalid (h : env.Declares s ⟨c, .either a b⟩)
    (hinvalida : env.IsInvalid a) (hinvalidb : env.IsInvalid b) : env.IsInvalid c := by
  have href := reference?_either ha hb hs []
  rw [List.append_nil] at href
  have hrefb := Channel.reference?_reference hb []
  rw [List.append_nil] at hrefb
  have hvalue : Resolves env (.text b.reference.toList) none :=
    .invalid hrefb hinvalidb (by simp)
  have hfallback := Resolves.blank_append hs.space hvalue
  have htext : Resolves env (.text ((Signal.either a b).text s).toList) none := by
    refine .invalid href hinvalida ?_
    intro f hf
    cases hf
    exact hfallback
  obtain ⟨cs, hcs⟩ := text_either_start s a b
  obtain ⟨gap, -, hr⟩ := h.resolves hcs htext
  exact hr

end Compounds

/-- A toggle with a known truth value shows it. -/
theorem shows_settle (hs : s.Blank) {id : String} {value : Bool}
    (h : ∀ d ∈ Toggle.settle id value, env.Declares s d) : env.Shows { id } value := by
  have hfalse := h _ (List.mem_cons_self ..)
  have htrue := h _ (List.mem_cons_of_mem _ (List.mem_cons_self ..))
  cases value with
  | false => exact ⟨Declares.isInvalid hfalse, Declares.isBlank hs htrue⟩
  | true => exact ⟨Declares.isInvalid htrue, Declares.isBlank hs hfalse⟩

/-- The toggle of a compound shows the truth value of the compound. -/
theorem shows_wire (hs : s.Blank) {id : String} {k : Connective} {a b : Toggle} {va vb : Bool}
    (h : ∀ d ∈ Toggle.wire id k a b, env.Declares s d) (ha : Nameable a.id.toList)
    (hb : Nameable b.id.toList) (hva : env.Shows a va) (hvb : env.Shows b vb) :
    env.Shows { id } (k.join va vb) := by
  have hca := Toggle.nameable_channel ha
  have hcb := Toggle.nameable_channel hb
  have hdeclared (on : Bool) : env.Declares s ⟨⟨id, on⟩, Toggle.signal k a b on⟩ := by
    cases on
    · exact h _ (List.mem_cons_self ..)
    · exact h _ (List.mem_cons_of_mem _ (List.mem_cons_self ..))
  have heither : env.Declares s ⟨⟨id, k.neutral⟩, .either (a.channel k.neutral)
      (b.channel k.neutral)⟩ := by
    have hd := hdeclared k.neutral
    rwa [Toggle.signal, if_pos rfl] at hd
  have hboth : env.Declares s ⟨⟨id, !k.neutral⟩, .both (a.channel !k.neutral)
      (b.channel !k.neutral)⟩ := by
    have hd := hdeclared !k.neutral
    rwa [Toggle.signal, if_neg (by simp)] at hd
  have hchannel (on : Bool) : ({ id } : Toggle).channel on = ⟨id, on⟩ := by
    cases on <;> rfl
  -- The neutral value of an operand leaves the decision to the other operand.
  by_cases hneutral : va = k.neutral
  · subst hneutral
    rw [Connective.join, if_pos rfl]
    by_cases hneutralb : vb = k.neutral
    · subst hneutralb
      refine ⟨?_, ?_⟩
      · rw [hchannel]
        exact heither.either_invalid (hca _) (hcb _) hs hva.1 hvb.1
      · rw [hchannel]
        exact hboth.both_blank (hca _) (hcb _) hs hva.2 hvb.2
    · have hvalue : vb = !k.neutral := Bool.eq_not.mpr hneutralb
      subst hvalue
      have hvb2 := hvb.2
      rw [Bool.not_not] at hvb2
      refine ⟨?_, ?_⟩
      · rw [hchannel]
        exact hboth.both_right (hca _) (hcb _) hs hva.2 hvb.1
      · rw [hchannel, Bool.not_not]
        exact heither.either_right (hca _) (hcb _) hs hva.1 hvb2
  · have hvalue : va = !k.neutral := Bool.eq_not.mpr hneutral
    subst hvalue
    have hva2 := hva.2
    rw [Bool.not_not] at hva2
    rw [Connective.join, if_neg hneutral]
    refine ⟨?_, ?_⟩
    · rw [hchannel]
      exact hboth.both_left (hca _) hva.1
    · rw [hchannel, Bool.not_not]
      exact heither.either_left (hca _) (hcb _) hs hva2

end Environment

end Cascade

end ConditionalStyles
