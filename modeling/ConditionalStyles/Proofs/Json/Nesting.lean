import ConditionalStyles.Proofs.Json.RoundTrip

/-!
Nesting read off a text. A scan over the characters counts the brackets that are open, and does not
look into string literals. The text of a value without numbers nests as deep as the value does.
-/
namespace ConditionalStyles.Json

/-- Where a scan stands: outside of literals, inside of one, or behind a backslash there. -/
inductive Place where
  | outside
  | literal
  | escape
  deriving DecidableEq, Repr

/-- How many brackets are open, and how many were open at a time at most. -/
structure Scan where
  place : Place := .outside
  opened : Nat := 0
  deepest : Nat := 0
  deriving DecidableEq, Repr

namespace Scan

def step (s : Scan) (c : Char) : Scan :=
  match s.place with
  | .escape => { s with place := .literal }
  | .literal =>
    if c = '"' then { s with place := .outside }
    else if c = '\\' then { s with place := .escape }
    else s
  | .outside =>
    if c = '"' then { s with place := .literal }
    else if c = '[' ∨ c = '\x7b' then
      { s with opened := s.opened + 1, deepest := max s.deepest (s.opened + 1) }
    else if c = ']' ∨ c = '\x7d' then { s with opened := s.opened - 1 }
    else s

def run (s : Scan) (cs : List Char) : Scan := cs.foldl step s

end Scan

/-- How many arrays and objects are open at a time in a text. -/
def textNesting (text : String) : Nat := (Scan.run {} text.toList).deepest

namespace Scan

variable {s : Scan}

theorem run_append (s : Scan) (cs ds : List Char) : s.run (cs ++ ds) = (s.run cs).run ds :=
  List.foldl_append

theorem run_cons (s : Scan) (c : Char) (cs : List Char) : s.run (c :: cs) = (s.step c).run cs := rfl

/-- The scan is between the parts of a value. -/
structure Ready (s : Scan) : Prop where
  outside : s.place = .outside
  opened_le : s.opened ≤ s.deepest

/-- The scan after brackets that are all closed again. -/
def reach (s : Scan) (depth : Nat) : Scan := { s with deepest := max s.deepest (s.opened + depth) }

theorem Ready.reach (h : s.Ready) (depth : Nat) : (s.reach depth).Ready :=
  ⟨h.outside, Nat.le_trans h.opened_le (Nat.le_max_left _ _)⟩

theorem reach_zero (h : s.Ready) : s.reach 0 = s := by
  have hmax : max s.deepest (s.opened + 0) = s.deepest := Nat.max_eq_left h.opened_le
  rw [Scan.reach, hmax]

theorem reach_reach (s : Scan) (a b : Nat) : (s.reach a).reach b = s.reach (max a b) := by
  simp only [Scan.reach, Scan.mk.injEq, true_and]
  omega

theorem step_literal {c : Char} (hplace : s.place = .literal) (hquote : c ≠ '"')
    (hbackslash : c ≠ '\\') : s.step c = s := by
  simp [step, hplace, hquote, hbackslash]

/-- A backslash hides the character after it. -/
theorem run_escaped (hplace : s.place = .literal) (c : Char) (cs : List Char) :
    s.run ('\\' :: c :: cs) = s.run cs := by
  obtain ⟨place, opened, deepest⟩ := s
  subst hplace
  rfl

theorem hexDigit_ne : ∀ n < 16, Text.hexDigit n ≠ '"' ∧ Text.hexDigit n ≠ '\\' := by decide

theorem run_escapeChar (hplace : s.place = .literal) (c : Char) :
    s.run (Text.escapeChar c) = s := by
  rcases escapeChar_cases c with ⟨d, -, hescape⟩ | ⟨hcontrol, hescape⟩ |
    ⟨hquote, hbackslash, -, hescape⟩
  · rw [hescape, run_escaped hplace]
    rfl
  · have hhigh := hexDigit_ne (c.toNat / 16) (by omega)
    have hlow := hexDigit_ne (c.toNat % 16) (by omega)
    rw [hescape, run_escaped hplace, run_cons, step_literal hplace (by decide) (by decide),
      run_cons, step_literal hplace (by decide) (by decide), run_cons,
      step_literal hplace hhigh.1 hhigh.2, run_cons, step_literal hplace hlow.1 hlow.2]
    rfl
  · rw [hescape, run_cons, step_literal hplace hquote hbackslash]
    rfl

theorem run_escape (hplace : s.place = .literal) (cs : List Char) : s.run (Text.escape cs) = s := by
  induction cs with
  | nil => rfl
  | cons c cs ih =>
    rw [Text.escape, List.flatMap_cons, run_append, run_escapeChar hplace, ← Text.escape, ih]

/-- A literal leaves the scan as it was. -/
theorem run_literal (h : s.Ready) (text : String) : s.run (Text.literal text).toList = s := by
  obtain ⟨place, opened, deepest⟩ := s
  obtain rfl : place = .outside := h.outside
  rw [literal_toList, run_cons, run_append]
  change ((Scan.mk .literal opened deepest).run (Text.escape text.toList)).run ['"'] = _
  rw [run_escape rfl]
  rfl

/-- The character neither opens nor closes anything. -/
def isInert (c : Char) : Bool := ['"', '[', ']', '\x7b', '\x7d'].all (c != ·)

theorem step_inert {c : Char} (h : s.Ready) (hc : isInert c = true) : s.step c = s := by
  simp only [isInert, List.all_cons, List.all_nil, Bool.and_true, Bool.and_eq_true,
    bne_iff_ne] at hc
  simp [step, h.outside, hc]

theorem run_inert (h : s.Ready) {cs : List Char} (hcs : cs.all isInert = true) : s.run cs = s := by
  induction cs with
  | nil => rfl
  | cons c cs ih =>
    rw [List.all_cons, Bool.and_eq_true] at hcs
    rw [run_cons, step_inert h hcs.1, ih hcs.2]

section Lists

variable {α : Type} {text : α → List Char} {depth : α → Nat} {as : List α}

/-- The deepest of several depths. -/
def deepestOf (depth : α → Nat) (as : List α) : Nat := as.foldr (fun a n => max (depth a) n) 0

theorem run_rest (h : s.Ready)
    (hrun : ∀ a ∈ as, ∀ s : Scan, s.Ready → s.run (text a) = s.reach (depth a)) :
    s.run (as.flatMap fun a => ',' :: text a) = s.reach (deepestOf depth as) := by
  induction as generalizing s with
  | nil => exact (reach_zero h).symm
  | cons a as ih =>
    rw [List.forall_mem_cons] at hrun
    have hcomma : s.run [','] = s := run_inert h rfl
    rw [List.flatMap_cons, run_append, ← List.singleton_append, run_append, hcomma, hrun.1 s h,
      ih (h.reach _) hrun.2, reach_reach]
    rfl

theorem run_separated (h : s.Ready)
    (hrun : ∀ a ∈ as, ∀ s : Scan, s.Ready → s.run (text a) = s.reach (depth a)) :
    s.run (Value.separated text as) = s.reach (deepestOf depth as) := by
  cases as with
  | nil => exact (reach_zero h).symm
  | cons a as =>
    rw [List.forall_mem_cons] at hrun
    rw [Value.separated, run_append, hrun.1 s h, run_rest (h.reach _) hrun.2, reach_reach]
    rfl

end Lists

/-- Brackets around a text let it reach one level deeper. -/
theorem run_brackets (h : s.Ready) {opening closing : Char}
    (hopening : opening = '[' ∨ opening = '\x7b') (hclosing : closing = ']' ∨ closing = '\x7d')
    {cs : List Char} {depth : Nat} (hrun : ∀ s : Scan, s.Ready → s.run cs = s.reach depth) :
    s.run (opening :: (cs ++ [closing])) = s.reach (depth + 1) := by
  obtain ⟨place, opened, deepest⟩ := s
  obtain rfl : place = .outside := h.outside
  have hopen : step ⟨.outside, opened, deepest⟩ opening =
      ⟨.outside, opened + 1, max deepest (opened + 1)⟩ := by
    rcases hopening with rfl | rfl <;> rfl
  have hclose (inner : Nat) : run ⟨.outside, opened + 1, inner⟩ [closing] =
      ⟨.outside, opened, inner⟩ := by
    rcases hclosing with rfl | rfl <;> rfl
  rw [run_cons, hopen, run_append, hrun _ ⟨rfl, Nat.le_max_right _ _⟩, reach, hclose, reach]
  simp only [Scan.mk.injEq, true_and]
  omega

end Scan

open Scan

namespace Value

theorem nestingItems_eq (vs : List Value) : nestingItems vs = deepestOf nesting vs := by
  induction vs with
  | nil => rfl
  | cons v vs ih =>
    rw [nestingItems, ih]
    rfl

theorem nestingFields_eq (fs : List (String × Value)) :
    nestingFields fs = deepestOf (fun field => field.2.nesting) fs := by
  induction fs with
  | nil => rfl
  | cons field fs ih =>
    rw [nestingFields, ih]
    rfl

theorem run_fieldText {field : String × Value} {s : Scan} (h : s.Ready)
    (hrun : s.run field.2.compact.toList = s.reach field.2.nesting) :
    s.run (fieldText field) = s.reach field.2.nesting := by
  have hcolon : s.run [':'] = s := run_inert h rfl
  rw [fieldText, run_append, run_literal h, ← List.singleton_append, run_append, hcolon, hrun]

mutual

/-- A scan of the text reaches as deep as the value is nested. -/
theorem run_compact : (v : Value) → v.Numberless → (s : Scan) → s.Ready →
    s.run v.compact.toList = s.reach v.nesting
  | null, _, s, h => by
    rw [nesting, reach_zero h]
    exact run_inert h rfl
  | bool true, _, s, h => by
    rw [nesting, reach_zero h]
    exact run_inert h rfl
  | bool false, _, s, h => by
    rw [nesting, reach_zero h]
    exact run_inert h rfl
  | number _, hnumber, _, _ => hnumber.elim
  | string text, _, s, h => by
    rw [compact, run_literal h, nesting, reach_zero h]
  | array vs, hnumber, s, h => by
    rw [compact_array_toList, nesting, nestingItems_eq]
    apply run_brackets h (Or.inl rfl) (Or.inl rfl)
    intro s h
    exact run_separated h (run_compactItems vs hnumber)
  | object fs, hnumber, s, h => by
    rw [compact_object_toList, nesting, nestingFields_eq]
    apply run_brackets h (Or.inr rfl) (Or.inr rfl)
    intro s h
    exact run_separated h (run_compactFields fs hnumber)

theorem run_compactItems : (vs : List Value) → NumberlessItems vs →
    ∀ v ∈ vs, ∀ s : Scan, s.Ready → s.run v.compact.toList = s.reach v.nesting
  | [], _ => by simp
  | v :: vs, hnumber => by
    rw [List.forall_mem_cons]
    exact ⟨run_compact v hnumber.1, run_compactItems vs hnumber.2⟩

theorem run_compactFields : (fs : List (String × Value)) → NumberlessFields fs →
    ∀ field ∈ fs, ∀ s : Scan, s.Ready → s.run (fieldText field) = s.reach field.2.nesting
  | [], _ => by simp
  | (name, v) :: fs, hnumber => by
    rw [List.forall_mem_cons]
    refine ⟨?_, run_compactFields fs hnumber.2⟩
    intro s h
    exact run_fieldText h (run_compact v hnumber.1 s h)

end

/-- A text nests as deep as the value that it spells. -/
theorem textNesting_compact {v : Value} (h : v.Numberless) : textNesting v.compact = v.nesting := by
  rw [textNesting, run_compact v h _ ⟨rfl, Nat.le_refl 0⟩, reach]
  simp

end Value

end ConditionalStyles.Json
