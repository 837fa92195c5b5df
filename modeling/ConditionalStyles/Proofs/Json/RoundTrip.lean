import ConditionalStyles.Proofs.Json.SpelledValues
import ConditionalStyles.Text.Characters

/-!
Values read back from their texts. The text of a value on one line is one of its spellings, if no
number occurs in the value: every character of a string is escaped on its own, and nothing stands
between the parts. So what is read from all spellings is read from this one.
-/
namespace ConditionalStyles.Json

open Text

section Literals

theorem hexValue?_hexDigit : ∀ n < 16, Reader.hexValue? (hexDigit n) = some n := by decide

/-- A character is escaped by a letter or, as a control character, by its code; or it stands for
itself. -/
theorem escapeChar_cases (c : Char) :
    (∃ d, Reader.simpleEscape? d = some c ∧ escapeChar c = ['\\', d]) ∨
      (c.toNat < 0x20 ∧ escapeChar c =
        ['\\', 'u', '0', '0', hexDigit (c.toNat / 16), hexDigit (c.toNat % 16)]) ∨
      (c ≠ '"' ∧ c ≠ '\\' ∧ ¬ c.toNat < 0x20 ∧ escapeChar c = [c]) := by
  by_cases hquote : c = '"'
  · exact Or.inl ⟨'"', by rw [hquote]; rfl, by rw [hquote]; rfl⟩
  by_cases hbackslash : c = '\\'
  · exact Or.inl ⟨'\\', by rw [hbackslash]; rfl, by rw [hbackslash]; rfl⟩
  by_cases hbackspace : c = '\x08'
  · exact Or.inl ⟨'b', by rw [hbackspace]; rfl, by rw [hbackspace]; rfl⟩
  by_cases hfeed : c = '\x0c'
  · exact Or.inl ⟨'f', by rw [hfeed]; rfl, by rw [hfeed]; rfl⟩
  by_cases hnewline : c = '\n'
  · exact Or.inl ⟨'n', by rw [hnewline]; rfl, by rw [hnewline]; rfl⟩
  by_cases hreturn : c = '\r'
  · exact Or.inl ⟨'r', by rw [hreturn]; rfl, by rw [hreturn]; rfl⟩
  by_cases htab : c = '\t'
  · exact Or.inl ⟨'t', by rw [htab]; rfl, by rw [htab]; rfl⟩
  have hother : escapeChar c = if c.toNat < 0x20 then
      ['\\', 'u', '0', '0', hexDigit (c.toNat / 16), hexDigit (c.toNat % 16)] else [c] := by
    simp only [escapeChar, hquote, hbackslash, hbackspace, hfeed, hnewline, hreturn, htab, if_false]
  by_cases hcontrol : c.toNat < 0x20
  · exact Or.inr (Or.inl ⟨hcontrol, by rw [hother, if_pos hcontrol]⟩)
  · exact Or.inr (Or.inr ⟨hquote, hbackslash, hcontrol, by rw [hother, if_neg hcontrol]⟩)

def HexDigit.ofNat (n : Nat) (h : n < 16) : HexDigit := ⟨hexDigit n, n, hexValue?_hexDigit n h⟩

/-- The code of a control character. -/
def controlUnit (n : Nat) (h : n < 0x20) : HexUnit where
  a := .ofNat 0 (by omega)
  b := .ofNat 0 (by omega)
  c := .ofNat (n / 16) (by omega)
  d := .ofNat (n % 16) (by omega)

theorem controlUnit_value (n : Nat) (h : n < 0x20) : (controlUnit n h).value = n := by
  simp only [HexUnit.value, controlUnit, HexDigit.ofNat]
  omega

/-- An escaped character is a piece of a literal. -/
theorem exists_piece (c : Char) :
    ∃ piece : Piece, piece.text = escapeChar c ∧ piece.char? = some c := by
  rcases escapeChar_cases c with ⟨d, hd, hescape⟩ | ⟨hcontrol, hescape⟩ |
    ⟨hquote, hbackslash, hcontrol, hescape⟩
  · exact ⟨.escape d c hd, hescape.symm, rfl⟩
  · refine ⟨.unit (controlUnit c.toNat hcontrol), hescape.symm, ?_⟩
    have hlead : isLeadUnit c.toNat = false := by
      simp only [isLeadUnit, Bool.and_eq_false_iff, decide_eq_false_iff_not]
      omega
    have htrail : isTrailUnit c.toNat = false := by
      simp only [isTrailUnit, Bool.and_eq_false_iff, decide_eq_false_iff_not]
      omega
    rw [Piece.char?, controlUnit_value, hlead, htrail, Char.ofNat_toNat]
    rfl
  · exact ⟨.plain c ⟨hquote, hbackslash, hcontrol⟩, hescape.symm, rfl⟩

theorem exists_pieces (cs : List Char) :
    ∃ l : Literal, l.flatMap Piece.text = escape cs ∧ l.chars? = some cs := by
  induction cs with
  | nil => exact ⟨[], rfl, rfl⟩
  | cons c cs ih =>
    obtain ⟨piece, hpiece, hc⟩ := exists_piece c
    obtain ⟨l, hl, hcs⟩ := ih
    refine ⟨piece :: l, ?_, ?_⟩
    · rw [List.flatMap_cons, hpiece, hl, escape, escape, List.flatMap_cons]
    · rw [Literal.chars?, hc, hcs]

theorem literal_toList (s : String) :
    (literal s).toList = '"' :: (escape s.toList ++ ['"']) := by
  rw [literal, String.toList_ofList]

theorem exists_literal (s : String) :
    ∃ l : Literal, l.text = (literal s).toList ∧ l.string? = some s := by
  obtain ⟨l, hl, hchars⟩ := exists_pieces s.toList
  refine ⟨l, ?_, ?_⟩
  · rw [Literal.text, hl, literal_toList]
  · rw [Literal.string?, hchars, Option.map_some, String.ofList_toList]

end Literals

namespace Value

mutual

/-- No number occurs in the value. -/
def Numberless : Value → Prop
  | null => True
  | bool _ => True
  | number _ => False
  | string _ => True
  | array items => NumberlessItems items
  | object fields => NumberlessFields fields

def NumberlessItems : List Value → Prop
  | [] => True
  | item :: rest => Numberless item ∧ NumberlessItems rest

def NumberlessFields : List (String × Value) → Prop
  | [] => True
  | (_, value) :: rest => Numberless value ∧ NumberlessFields rest

end

/-- A name, a colon and a value. -/
def fieldText (field : String × Value) : List Char :=
  (literal field.1).toList ++ ':' :: field.2.compact.toList

theorem compactItems_toList (items : List Value) :
    (compactItems items).toList = separated (fun item => item.compact.toList) items := by
  induction items with
  | nil => rfl
  | cons item rest ih =>
    cases rest with
    | nil => simp [compactItems, separated]
    | cons next rest => simp [compactItems, separated, ih]

theorem compactFields_toList (fields : List (String × Value)) :
    (compactFields fields).toList = separated fieldText fields := by
  induction fields with
  | nil => rfl
  | cons field rest ih =>
    cases rest with
    | nil => simp [compactFields, separated, fieldText]
    | cons next rest => simp [compactFields, separated, fieldText, ih]

theorem compact_array_toList (items : List Value) :
    (array items).compact.toList =
      '[' :: (separated (fun item => item.compact.toList) items ++ [']']) := by
  simp [compact, compactItems_toList]

theorem compact_object_toList (fields : List (String × Value)) :
    (object fields).compact.toList = '\x7b' :: (separated fieldText fields ++ ['\x7d']) := by
  simp [compact, compactFields_toList]

theorem separated_eq_of_map_eq {α β : Type} {f : α → List Char} {g : β → List Char} {as : List α}
    {bs : List β} (h : as.map f = bs.map g) : separated f as = separated g bs := by
  have hmap {γ : Type} (k : γ → List Char) (cs : List γ) :
      separated id (cs.map k) = separated k cs := by
    cases cs with
    | nil => rfl
    | cons c cs => simp [separated, List.flatMap_map]
  rw [← hmap f, h, hmap g]

mutual

/-- The text of a value without numbers is one of its spellings. -/
theorem exists_spelling : (v : Value) → v.Numberless →
    ∃ s : Spelling, s.text = v.compact.toList ∧ s.value? = some v
  | null, _ => ⟨.null, rfl, rfl⟩
  | bool true, _ => ⟨.bool true, rfl, rfl⟩
  | bool false, _ => ⟨.bool false, rfl, rfl⟩
  | number _, h => h.elim
  | string s, _ => by
    obtain ⟨l, htext, hl⟩ := exists_literal s
    exact ⟨.string l, htext, by rw [Spelling.value?, hl, Option.map_some]⟩
  | array vs, h => by
    obtain ⟨items, htexts, hvalues⟩ := exists_itemSpellings vs h
    refine ⟨.array items {}, ?_, by rw [Spelling.value?, hvalues, Option.map_some]⟩
    rw [Spelling.text_array, enclosed, separated_eq_of_map_eq htexts, compact_array_toList]
    rfl
  | object vs, h => by
    obtain ⟨fields, htexts, hvalues⟩ := exists_fieldSpellings vs h
    refine ⟨.object fields {}, ?_, by rw [Spelling.value?, hvalues, Option.map_some]⟩
    rw [Spelling.text_object, enclosed, separated_eq_of_map_eq htexts, compact_object_toList]
    rfl

theorem exists_itemSpellings : (vs : List Value) → NumberlessItems vs →
    ∃ items : List (Padded Spelling),
      (Spelling.itemParts items).map Padded.text = vs.map (fun v => v.compact.toList) ∧
        Spelling.itemValues? items = some vs
  | [], _ => ⟨[], rfl, rfl⟩
  | v :: vs, h => by
    obtain ⟨s, htext, hvalue⟩ := exists_spelling v h.1
    obtain ⟨items, htexts, hvalues⟩ := exists_itemSpellings vs h.2
    refine ⟨⟨{}, s, {}⟩ :: items, ?_, by rw [Spelling.itemValues?, hvalue, hvalues]⟩
    simp [Spelling.itemParts, Padded.text, htext, htexts]

theorem exists_fieldSpellings : (vs : List (String × Value)) → NumberlessFields vs →
    ∃ fields : List (Padded Literal × Padded Spelling),
      (Spelling.fieldParts fields).map Padded.text = vs.map fieldText ∧
        Spelling.fieldValues? fields = some vs
  | [], _ => ⟨[], rfl, rfl⟩
  | (name, v) :: vs, h => by
    obtain ⟨l, hliteral, hname⟩ := exists_literal name
    obtain ⟨s, htext, hvalue⟩ := exists_spelling v h.1
    obtain ⟨fields, htexts, hvalues⟩ := exists_fieldSpellings vs h.2
    refine ⟨(⟨{}, l, {}⟩, ⟨{}, s, {}⟩) :: fields, ?_,
      by rw [Spelling.fieldValues?, hname, hvalue, hvalues]⟩
    simp [Spelling.fieldParts, Spelling.fieldPart, Padded.text, fieldText, hliteral, htext, htexts]

end

end Value

/-- A value without numbers is read from its text if it is not nested too deep. -/
theorem Reader.reads_compact {v : Value} (h : v.Numberless) (depth : Nat) :
    Reads (value depth) v.compact.toList v (v.nesting ≤ depth) := by
  obtain ⟨s, htext, hvalue⟩ := v.exists_spelling h
  rw [← htext]
  exact reads_value s v hvalue depth

/-- A document without numbers is read from its text on one line. -/
theorem read_compact {v : Value} (h : v.Numberless) (hnesting : v.nesting ≤ depthLimit) :
    read v.compact = .ok v := by
  have hvalue := Reader.reads_compact h depthLimit [] Reader.Ends.nil
  rw [List.append_nil, decide_eq_true hnesting, if_pos rfl] at hvalue
  rw [read, Reader.run, hvalue]
  rfl

end ConditionalStyles.Json
