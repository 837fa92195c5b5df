import ConditionalStyles.Proofs.Cascade.Truth
import ConditionalStyles.Registry
import Mathlib.Data.List.Forall2
import Mathlib.Data.Option.Defs

/-!
What a layout for people changes: blanks and nothing else. Texts are compared without their blanks.
A style sheet is put together from parts that are the same in every layout. A merge also reads the
texts that it wrote itself, so two merges with different layouts are run side by side: after every
change their styles have the same properties in the same order, with values that differ in blanks.
-/
namespace ConditionalStyles

namespace Text

/-- A text without its blanks. -/
def solid (s : String) : List Char := s.toList.filter fun c => !isBlank c

theorem solid_append (a b : String) : solid (a ++ b) = solid a ++ solid b := by
  rw [solid, String.toList_append, List.filter_append, ← solid, ← solid]

theorem solid_of_blank {s : String} (h : Blank s.toList) : solid s = [] := by
  rw [solid, List.filter_eq_nil_iff]
  intro c hc
  rw [h c hc]
  decide

theorem solid_join (parts : List String) : solid (String.join parts) = parts.flatMap solid := by
  rw [solid, String.toList_join, List.filter_flatMap]
  rfl

end Text

open Text

section Sheets

variable {s t : Spacing}

theorem Signal.solid_text (hs : s.Blank) (ht : t.Blank) (signal : Signal) :
    solid (signal.text s) = solid (signal.text t) := by
  cases signal with
  | invalid => rfl
  | blank => rw [text, text, solid_of_blank hs.blank, solid_of_blank ht.blank]
  | both a b =>
    simp only [text, solid_append, solid_of_blank hs.space, solid_of_blank ht.space]
  | either a b =>
    simp only [text, Channel.referenceOr, solid_append, solid_of_blank hs.space,
      solid_of_blank ht.space]

theorem Declaration.solid_text (hs : s.Blank) (ht : t.Blank) (level : Nat) (d : Declaration) :
    solid (d.text s level) = solid (d.text t level) := by
  simp only [text, solid_append, solid_of_blank (hs.indentation level),
    solid_of_blank (ht.indentation level), solid_of_blank hs.space, solid_of_blank ht.space,
    solid_of_blank hs.newline, solid_of_blank ht.newline, d.signal.solid_text hs ht]

namespace Sheet

theorem solid_declarationsText (hs : s.Blank) (ht : t.Blank) (level : Nat)
    (ds : List Declaration) :
    solid (declarationsText s level ds) = solid (declarationsText t level ds) := by
  rw [declarationsText, declarationsText, solid_join, solid_join, List.flatMap_map,
    List.flatMap_map]
  exact List.flatMap_congr fun d _ => d.solid_text hs ht level

theorem solid_blockText (hs : s.Blank) (ht : t.Blank) (level : Nat) (head : String)
    {body body' : String} (h : solid body = solid body') :
    solid (blockText s level head body) = solid (blockText t level head body') := by
  simp only [blockText, solid_append, solid_of_blank (hs.indentation level),
    solid_of_blank (ht.indentation level), solid_of_blank hs.space, solid_of_blank ht.space,
    solid_of_blank hs.newline, solid_of_blank ht.newline, h]

theorem solid_ruleText (hs : s.Blank) (ht : t.Blank) (rule : Rule) :
    solid (ruleText s rule) = solid (ruleText t rule) := by
  have hbody := fun level => solid_declarationsText hs ht level rule.body
  unfold ruleText
  cases rule.scope with
  | selector source => exact solid_blockText hs ht 0 _ (hbody 1)
  | atRule source =>
    exact solid_blockText hs ht 0 _ (solid_blockText hs ht 1 "*" (hbody 2))

/-- The layout of a style sheet does not show without blanks. -/
theorem solid_text (hs : s.Blank) (ht : t.Blank) (sheet : Sheet) :
    solid (sheet.text s) = solid (sheet.text t) := by
  have hroot := solid_blockText hs ht 0 "*" (solid_declarationsText hs ht 1 sheet.root)
  have hrules : (sheet.rules.map (ruleText s)).flatMap solid =
      (sheet.rules.map (ruleText t)).flatMap solid := by
    rw [List.flatMap_map, List.flatMap_map]
    exact List.flatMap_congr fun rule _ => solid_ruleText hs ht rule
  rw [text, text, solid_append, solid_append, hroot, solid_join, solid_join, hrules]

end Sheet

end Sheets

namespace OrderedMap

variable {α : Type} {R : α → α → Prop} {m n : OrderedMap α}

/-- The maps have the same names in the same order, with related values. -/
def Related (m : OrderedMap α) (R : α → α → Prop) (n : OrderedMap α) : Prop :=
  List.Forall₂ (fun a b => a.1 = b.1 ∧ R a.2 b.2) m.entries n.entries

theorem Related.names_eq (h : m.Related R n) : m.names = n.names := by
  unfold Related at h
  unfold names
  generalize m.entries = l, n.entries = l' at h ⊢
  induction h with
  | nil => rfl
  | cons hhead _ ih => rw [List.map_cons, List.map_cons, hhead.1, ih]

theorem Related.get? (h : m.Related R n) (name : String) :
    Option.Rel R (m.get? name) (n.get? name) := by
  unfold Related at h
  unfold OrderedMap.get?
  generalize m.entries = l, n.entries = l' at h ⊢
  induction h with
  | nil => exact Option.Rel.none
  | @cons a b l l' hhead _ ih =>
    obtain ⟨key, v⟩ := a
    obtain ⟨key', w⟩ := b
    obtain ⟨rfl, hvalue⟩ := hhead
    by_cases hname : name = key
    · subst hname
      rw [List.lookup_cons_self, List.lookup_cons_self]
      exact Option.Rel.some hvalue
    · rw [lookup_cons_ne l hname, lookup_cons_ne l' hname]
      exact ih

theorem Related.insert (h : m.Related R n) (name : String) {v w : α} (hvalue : R v w) :
    (m.insert name v).Related R (n.insert name w) := by
  unfold Related at h
  change List.Forall₂ _ (insertFrom name v m.entries) (insertFrom name w n.entries)
  generalize m.entries = l, n.entries = l' at h ⊢
  induction h with
  | nil => exact .cons ⟨rfl, hvalue⟩ .nil
  | @cons a b l l' hhead htail ih =>
    by_cases hname : a.1 = name
    · rw [insertFrom, if_pos hname, insertFrom, if_pos (hhead.1.symm.trans hname)]
      exact .cons ⟨rfl, hvalue⟩ htail
    · rw [insertFrom, if_neg hname, insertFrom, if_neg fun heq => hname (hhead.1.trans heq)]
      exact .cons hhead ih

theorem Related.erase (h : m.Related R n) (name : String) :
    (m.erase name).Related R (n.erase name) := by
  unfold Related at h
  change List.Forall₂ _ (m.entries.filter _) (n.entries.filter _)
  generalize m.entries = l, n.entries = l' at h ⊢
  induction h with
  | nil => exact .nil
  | @cons a b l l' hhead htail ih =>
    by_cases hname : a.1 = name
    · rw [List.filter_cons_of_neg (by simp [hname]),
        List.filter_cons_of_neg (by simp [← hhead.1, hname])]
      exact ih
    · rw [List.filter_cons_of_pos (by simp [hname]),
        List.filter_cons_of_pos (by simp [← hhead.1, hname])]
      exact .cons hhead ih

end OrderedMap

namespace Json.Value

/-- The same value, or two strings that are the same without their blanks. -/
inductive Alike : Value → Value → Prop
  | same {v : Value} (h : v.string? = none) : Alike v v
  | string {a b : String} (h : solid a = solid b) : Alike (.string a) (.string b)

theorem Alike.refl (v : Value) : v.Alike v := by
  cases h : v.string? with
  | none => exact .same h
  | some s =>
    cases v with
    | string _ => exact .string rfl
    | _ => cases h

end Json.Value

open Json (Value)

/-- The text of a value does not tell its blanks. -/
def ValueText.Steady (valueText : ValueText) : Prop :=
  ∀ name v w, Value.Alike v w →
    Option.Rel (fun a b => solid a = solid b) (valueText name v) (valueText name w)

theorem ValueText.steady_generic : ValueText.generic.Steady := by
  intro name v w h
  cases h with
  | string h => exact .some h
  | same _ =>
    cases ValueText.generic name v with
    | none => exact .none
    | some text => exact .some rfl

namespace Styling

variable {s : Styling} {p q : Spacing}

/-- The same merge in another layout. -/
def spaced (s : Styling) (p : Spacing) : Styling := { s with spacing := p }

theorem related_write {m n : Style} (h : m.Related Value.Alike n) (name : String) {v w : Value}
    (hvalue : v.Alike w) :
    ((s.spaced p).write m name v).Related Value.Alike ((s.spaced q).write n name w) := by
  change (s.write m name v).Related _ (s.write n name w)
  unfold write
  split
  · exact (h.erase name).insert name hvalue
  · exact h.insert name hvalue

theorem related_writeAll {entries entries' : List (String × Value)}
    (hentries : List.Forall₂ (fun a b => a.1 = b.1 ∧ a.2.Alike b.2) entries entries')
    {m n : Style} (h : m.Related Value.Alike n) :
    ((s.spaced p).writeAll m entries).Related Value.Alike ((s.spaced q).writeAll n entries') := by
  induction hentries generalizing m n with
  | nil => exact h
  | @cons a b entries entries' hhead _ ih =>
    have hnext := related_write (s := s) (p := p) (q := q) h a.1 hhead.2
    nth_rewrite 2 [hhead.1] at hnext
    exact ih hnext

theorem related_declare (hp : p.Blank) (hq : q.Blank) {m n : Style}
    (h : m.Related Value.Alike n) (ds : List Declaration) :
    ((s.spaced p).declare m ds).Related Value.Alike ((s.spaced q).declare n ds) := by
  apply related_writeAll _ h
  rw [List.forall₂_map_left_iff, List.forall₂_map_right_iff, List.forall₂_same]
  intro d _
  exact ⟨rfl, .string (d.signal.solid_text hp hq)⟩

section Overrides

variable (hp : p.Blank) (hq : q.Blank) (hsteady : s.valueText.Steady)

include hp hq in
theorem solid_choice (t : Toggle) {text text' fallback fallback' : String}
    (htext : solid text = solid text') (hfallback : solid fallback = solid fallback') :
    solid ((s.spaced p).choice t text fallback) =
      solid ((s.spaced q).choice t text' fallback') := by
  have hleft : solid (s.spaced p).spacing.space = [] := solid_of_blank hp.space
  have hright : solid (s.spaced q).spacing.space = [] := solid_of_blank hq.space
  simp only [choice, Channel.referenceOr, solid_append, hleft, hright, htext, hfallback]

include hsteady in
/-- What a property was before is read from the style, where the layouts have left their marks. -/
theorem solid_fallbackText {m n : Style} (h : m.Related Value.Alike n) (name : String) :
    solid ((s.spaced p).fallbackText m name) = solid ((s.spaced q).fallbackText n name) := by
  change solid (s.fallbackText m name) = solid (s.fallbackText n name)
  have hbefore := h.get? name
  unfold fallbackText
  generalize m.get? name = v, n.get? name = w at hbefore ⊢
  cases hbefore with
  | none => rfl
  | @some v w hvalue =>
    have htext := hsteady name v w hvalue
    rw [Option.bind_some, Option.bind_some]
    generalize s.valueText name v = text, s.valueText name w = text' at htext ⊢
    cases htext with
    | none => rfl
    | some hsolid => exact hsolid

include hp hq hsteady

theorem related_overrideProperty (t : Toggle) {m n : Style} (h : m.Related Value.Alike n)
    (entry : String × Value) :
    ((s.spaced p).overrideProperty t m entry).Related Value.Alike
      ((s.spaced q).overrideProperty t n entry) := by
  have hfallback := solid_fallbackText (p := p) (q := q) hsteady h entry.1
  have hvalueText (r : Spacing) : (s.spaced r).valueText = s.valueText := rfl
  unfold overrideProperty
  rw [hvalueText, hvalueText]
  cases s.valueText entry.1 entry.2 with
  | none => exact h
  | some text => exact related_write h entry.1 (.string (solid_choice hp hq t rfl hfallback))

theorem related_overrideAll (t : Toggle) {m n : Style} (h : m.Related Value.Alike n)
    (properties : Style) :
    ((s.spaced p).overrideAll t m properties).Related Value.Alike
      ((s.spaced q).overrideAll t n properties) := by
  unfold overrideAll
  generalize properties.entries = entries
  induction entries generalizing m n with
  | nil => exact h
  | cons entry entries ih => exact ih (related_overrideProperty hp hq hsteady t h entry)

/-- Two merges side by side: the styles are alike and as many toggles were numbered. -/
structure SideBySide (a b : Progress) : Prop where
  style : a.style.Related Value.Alike b.style
  numbered : a.numbered = b.numbered

theorem SideBySide.apply {a b : Progress} (h : SideBySide a b) (change : Change) :
    SideBySide ((s.spaced p).apply a change) ((s.spaced q).apply b change) := by
  cases change with
  | set properties =>
    have hsame : List.Forall₂ (fun a b => a.1 = b.1 ∧ a.2.Alike b.2) properties.entries
        properties.entries := List.forall₂_same.mpr fun entry _ => ⟨rfl, .refl entry.2⟩
    exact ⟨related_writeAll hsame h.style, h.numbered⟩
  | override o =>
    have hresolve (r : Spacing) : (s.spaced r).resolve? o.condition = s.resolve? o.condition := rfl
    simp only [Styling.apply, applyOverride, hresolve, h.numbered]
    cases s.resolve? o.condition with
    | none => exact h
    | some condition =>
      exact ⟨related_overrideAll hp hq hsteady _ (related_declare hp hq h.style _) o.properties,
        rfl⟩

theorem SideBySide.run {a b : Progress} (h : SideBySide a b) (changes : List Change) :
    SideBySide (changes.foldl (s.spaced p).apply a) (changes.foldl (s.spaced q).apply b) := by
  induction changes generalizing a b with
  | nil => exact h
  | cons change changes ih => exact ih (h.apply hp hq hsteady change)

theorem related_merge (blocks : List Block) :
    ((s.spaced p).merge blocks).Related Value.Alike ((s.spaced q).merge blocks) := by
  have hstart : SideBySide {} {} := ⟨List.Forall₂.nil, rfl⟩
  exact (hstart.run hp hq hsteady (s.changes blocks)).style

end Overrides

end Styling

namespace Registry

/-- With names of its own for the toggles, a configuration leaves only the layout of styles to the
wish for readable texts. -/
theorem styling_create (config : Configuration) (naming : String → String)
    (readable : Bool) (valueText : ValueText) :
    (create { config with naming := some naming, readable } valueText).styling =
      (create { config with naming := some naming } valueText).styling.spaced
        (.ofReadable readable) := rfl

/-- Readable and compact texts differ in blanks only: in style sheets, whatever the hooks are, and
in styles, where names for toggles are given. There both layouts have the same properties in the
same order, and the two values of a property are one value that is not a string, or two strings that
are the same without their blanks. -/
theorem layout_changes_blanks_only :
    (∀ hooks : List (String × Condition Scope),
      solid ((Sheet.ofHooks hooks).text (.ofReadable true)) =
        solid ((Sheet.ofHooks hooks).text (.ofReadable false))) ∧
    ∀ (config : Configuration) (naming : String → String) (blocks : List Block),
      let readable := (create { config with naming := some naming, readable := true } .generic).css
        blocks
      let compact := (create { config with naming := some naming, readable := false } .generic).css
        blocks
      readable.names = compact.names ∧
        List.Forall₂ (fun a b => a.1 = b.1 ∧ a.2.Alike b.2) readable.entries compact.entries := by
  refine ⟨fun hooks => ?_, fun config naming blocks => ?_⟩
  · exact (Sheet.ofHooks hooks).solid_text (Spacing.ofReadable_blank true)
      (Spacing.ofReadable_blank false)
  · intro readable compact
    have hrelated : readable.Related Value.Alike compact := by
      change ((create _ _).styling.merge blocks).Related _ ((create _ _).styling.merge blocks)
      rw [styling_create config naming true, styling_create config naming false]
      exact Styling.related_merge (Spacing.ofReadable_blank true)
        (Spacing.ofReadable_blank false) ValueText.steady_generic blocks
    exact ⟨hrelated.names_eq, hrelated⟩

end Registry

end ConditionalStyles
