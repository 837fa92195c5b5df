import ConditionalStyles.Proofs.Cascade.Truth
import ConditionalStyles.Style

/-!
Choices between two texts. A choice reads the toggle of a condition twice: where the toggle shows
true it comes down to the first text, where it shows false to the second, with blanks around them.
-/
namespace ConditionalStyles

open Text Cascade

namespace Cascade.Environment

/-- The text resolves as the expected one does, up to blanks around the outcome. -/
def Yields (env : Environment) (text expected : String) : Prop :=
  ∀ r, Resolves env (.text expected.toList) r →
    ∃ r', Resolves env (.text text.toList) r' ∧ r'.map trim = r.map trim

theorem yields_refl (env : Environment) (text : String) : env.Yields text text :=
  fun r h => ⟨r, h, rfl⟩

variable {env : Environment} {s : Spacing} {c : Channel} {text : String}

/-- The fallback of an invalid channel is used, and the rest of the text follows. -/
theorem resolves_referenceOr_invalid (hs : s.Blank) (hc : Nameable c.toggle.toList)
    (htext : Balanced text.toList) (hinvalid : env.IsInvalid c) {r : Option (List Char)}
    (hr : Resolves env (.text text.toList) r) {rest v : List Char}
    (hrest : Resolves env (.text rest) (some v)) :
    Resolves env (.text ((c.referenceOr s text).toList ++ rest))
      (r.map fun u => (s.space.toList ++ u) ++ v) := by
  have hfallback := Resolves.blank_append hs.space hr
  have href := Channel.reference?_referenceOr hc
    (balanced_append (balanced_blank hs.space) htext) rest
  cases r with
  | none =>
    refine .invalid href hinvalid ?_
    intro f hf
    cases hf
    exact hfallback
  | some u => exact .fallback href hinvalid rfl hfallback hrest

/-- A channel with a value hides the fallback. -/
theorem resolves_referenceOr_value (hs : s.Blank) (hc : Nameable c.toggle.toList)
    (htext : Balanced text.toList) {b : List Char}
    (hvalue : Resolves env (.property c.property) (some b)) {rest : List Char}
    {r : Option (List Char)} (hrest : Resolves env (.text rest) r) :
    Resolves env (.text ((c.referenceOr s text).toList ++ rest)) (r.map (b ++ ·)) :=
  .value (Channel.reference?_referenceOr hc
    (balanced_append (balanced_blank hs.space) htext) rest) hvalue hrest

end Cascade.Environment

namespace Styling

variable {s : Styling} {env : Environment} {t : Toggle} {text fallback expected : String}

theorem choice_toList (s : Styling) (t : Toggle) (text fallback : String) :
    (s.choice t text fallback).toList =
      ((t.channel true).referenceOr s.spacing text).toList ++ (s.spacing.space.toList ++
        (((t.channel false).referenceOr s.spacing fallback).toList ++ [])) := by
  simp [choice]

theorem balanced_choice (hs : s.spacing.Blank) (ht : Nameable t.id.toList)
    (htext : Balanced text.toList) (hfallback : Balanced fallback.toList) :
    Balanced (s.choice t text fallback).toList := by
  have hspace := balanced_blank hs.space
  have hchannel := Toggle.nameable_channel ht
  rw [choice_toList]
  exact balanced_append
    (Channel.balanced_referenceOr (hchannel true) (balanced_append hspace htext))
    (balanced_append hspace (balanced_append
      (Channel.balanced_referenceOr (hchannel false) (balanced_append hspace hfallback))
      balanced_nil))

theorem yields_choice_of_true (hs : s.spacing.Blank) (ht : Nameable t.id.toList)
    (htext : Balanced text.toList) (hfallback : Balanced fallback.toList)
    (hshows : env.Shows t true) : env.Yields (s.choice t text fallback) text := by
  intro r hr
  have hchannel := Toggle.nameable_channel ht
  obtain ⟨hinvalid, b, hb, hvalue⟩ := hshows
  have hsecond := Environment.resolves_referenceOr_value hs (hchannel false) hfallback hvalue .nil
  have hrest := Resolves.blank_append hs.space hsecond
  have hall := Environment.resolves_referenceOr_invalid hs (hchannel true) htext hinvalid hr hrest
  rw [← choice_toList] at hall
  refine ⟨_, hall, ?_⟩
  cases r with
  | none => rfl
  | some u =>
    have hend : Text.Blank (s.spacing.space.toList ++ (b ++ [])) :=
      blank_append hs.space (blank_append hb blank_nil)
    refine congrArg some ?_
    exact (trim_append_blank _ hend).trans (trim_blank_append hs.space u)

theorem yields_choice_of_false (hs : s.spacing.Blank) (ht : Nameable t.id.toList)
    (htext : Balanced text.toList) (hfallback : Balanced fallback.toList)
    (hshows : env.Shows t false) (hyields : env.Yields fallback expected) :
    env.Yields (s.choice t text fallback) expected := by
  intro r hr
  have hchannel := Toggle.nameable_channel ht
  obtain ⟨r', hr', htrim⟩ := hyields r hr
  obtain ⟨hinvalid, b, hb, hvalue⟩ := hshows
  have hsecond := Environment.resolves_referenceOr_invalid hs (hchannel false) hfallback hinvalid
    hr' .nil
  have hrest := Resolves.blank_append hs.space hsecond
  have hall := Environment.resolves_referenceOr_value hs (hchannel true) htext hvalue hrest
  rw [← choice_toList] at hall
  refine ⟨_, hall, ?_⟩
  rw [← htrim]
  cases r' with
  | none => rfl
  | some u =>
    refine congrArg some ?_
    change trim (b ++ (s.spacing.space.toList ++ ((s.spacing.space.toList ++ u) ++ []))) = trim u
    rw [trim_blank_append hb, trim_blank_append hs.space, List.append_nil,
      trim_blank_append hs.space]

end Styling

end ConditionalStyles
