import ConditionalStyles.Proofs.Cascade.Truth
import Mathlib.Data.Prod.Lex
import Mathlib.Logic.Relation

/-!
The references of a text: those that follow each other in it, and those inside their fallbacks. A
signal over toggles with names that a reference can spell has a reference to a channel of each of
them and no other. Where references lead from name to name along a growing measure, none comes back
to where it started.
-/
namespace ConditionalStyles

open Text

namespace Cascade

section Cycles

/-- A relation along which a measure grows has no cycles. -/
theorem not_transGen_self_of_lt {α β : Type} [Preorder β] {refers : α → α → Prop}
    (measure : α → β) (h : ∀ a b, refers a b → measure a < measure b) (a : α) :
    ¬ Relation.TransGen refers a a := by
  intro hcycle
  have hgrows : Relation.TransGen (· < ·) (measure a) (measure a) := hcycle.lift measure h
  rw [Relation.transGen_eq_self] at hgrows
  exact lt_irrefl _ hgrows

variable {inner : String → Prop} {name other : String}

open Classical in
/-- Names of the inner kind come before all others, and shorter names before longer ones of the same
kind. -/
noncomputable def rank (inner : String → Prop) (name : String) : ℕ ×ₗ ℕ :=
  toLex (if inner name then 0 else 1, name.length)

theorem rank_lt_of_not (hname : inner name) (hother : ¬ inner other) :
    rank inner name < rank inner other := by
  rw [rank, rank, if_pos hname, if_neg hother]
  exact Prod.Lex.toLex_lt_toLex.mpr (Or.inl Nat.zero_lt_one)

open Classical in
theorem rank_lt_of_length (hkind : inner name ↔ inner other)
    (hlength : name.length < other.length) : rank inner name < rank inner other :=
  Prod.Lex.toLex_lt_toLex.mpr (Or.inr ⟨if_congr hkind rfl rfl, hlength⟩)

end Cycles

/-- The text has a reference to the property. -/
inductive Mentions (name : String) : List Char → Prop
  | named {cs rest : List Char} {ref : Reference} (href : reference? cs = some (ref, rest))
      (hname : ref.name = name) : Mentions name cs
  | fallback {cs rest f : List Char} {ref : Reference} (href : reference? cs = some (ref, rest))
      (hf : ref.fallback = some f) (h : Mentions name f) : Mentions name cs
  | after {cs rest : List Char} {ref : Reference} (href : reference? cs = some (ref, rest))
      (h : Mentions name rest) : Mentions name cs
  | skip {c : Char} {rest : List Char} (href : reference? (c :: rest) = none)
      (h : Mentions name rest) : Mentions name (c :: rest)

variable {name : String}

theorem not_mentions_nil : ¬ Mentions name [] := by
  intro h
  cases h with
  | named href => cases href
  | fallback href => cases href
  | after href => cases href

theorem mentions_iff_of_reference? {cs rest : List Char} {ref : Reference}
    (href : reference? cs = some (ref, rest)) :
    Mentions name cs ↔ ref.name = name ∨ (∃ f, ref.fallback = some f ∧ Mentions name f) ∨
      Mentions name rest := by
  constructor
  · intro h
    cases h with
    | named href' hname =>
      rw [href] at href'
      cases href'
      exact Or.inl hname
    | fallback href' hf h =>
      rw [href] at href'
      cases href'
      exact Or.inr (Or.inl ⟨_, hf, h⟩)
    | after href' h =>
      rw [href] at href'
      cases href'
      exact Or.inr (Or.inr h)
    | skip href' =>
      rw [href] at href'
      cases href'
  · rintro (hname | ⟨f, hf, h⟩ | h)
    · exact .named href hname
    · exact .fallback href hf h
    · exact .after href h

theorem mentions_cons_iff {c : Char} {rest : List Char} (href : reference? (c :: rest) = none) :
    Mentions name (c :: rest) ↔ Mentions name rest := by
  constructor
  · intro h
    cases h with
    | named href' => rw [href] at href'; cases href'
    | fallback href' => rw [href] at href'; cases href'
    | after href' => rw [href] at href'; cases href'
    | skip href' h => exact h
  · exact .skip href

theorem mentions_blank_append {b : List Char} (hb : Blank b) (cs : List Char) :
    Mentions name (b ++ cs) ↔ Mentions name cs := by
  induction b with
  | nil => exact Iff.rfl
  | cons c b ih =>
    have hc : c ≠ 'v' := by
      rintro rfl
      exact absurd (hb _ List.mem_cons_self) (by decide)
    rw [List.cons_append, mentions_cons_iff (reference?_of_head_ne hc _)]
    exact ih fun d hd => hb d (List.mem_cons_of_mem c hd)

theorem mentions_reference {c : Channel} (h : Nameable c.toggle.toList) (rest : List Char) :
    Mentions name (c.reference.toList ++ rest) ↔ c.property = name ∨ Mentions name rest := by
  rw [mentions_iff_of_reference? (Channel.reference?_reference h rest)]
  simp

end Cascade

open Cascade

theorem Signal.mentions_both {s : Spacing} (hs : s.Blank) {a b : Channel}
    (ha : Nameable a.toggle.toList) (hb : Nameable b.toggle.toList) (name : String) :
    Mentions name ((Signal.both a b).text s).toList ↔ a.property = name ∨ b.property = name := by
  rw [Environment.text_both_toList, mentions_reference ha, mentions_blank_append hs.space,
    mentions_reference hb]
  simp [not_mentions_nil]

theorem Signal.mentions_either {s : Spacing} (hs : s.Blank) {a b : Channel}
    (ha : Nameable a.toggle.toList) (hb : Nameable b.toggle.toList) (name : String) :
    Mentions name ((Signal.either a b).text s).toList ↔ a.property = name ∨ b.property = name := by
  have href := Environment.reference?_either ha hb hs []
  have hsecond : Mentions name (b.reference.toList ++ []) ↔ b.property = name ∨ Mentions name [] :=
    mentions_reference hb []
  rw [List.append_nil] at href hsecond
  rw [mentions_iff_of_reference? href]
  simp [mentions_blank_append hs.space, hsecond, not_mentions_nil]

/-- The signals of a compound refer to one channel of each operand. -/
theorem Toggle.mentions_signal {s : Spacing} (hs : s.Blank) {a b : Toggle}
    (ha : Nameable a.id.toList) (hb : Nameable b.id.toList) (k : Connective) (on : Bool)
    (name : String) :
    Mentions name ((signal k a b on).text s).toList ↔
      (a.channel on).property = name ∨ (b.channel on).property = name := by
  unfold signal
  split
  · exact Signal.mentions_either hs (nameable_channel ha on) (nameable_channel hb on) name
  · exact Signal.mentions_both hs (nameable_channel ha on) (nameable_channel hb on) name

end ConditionalStyles
