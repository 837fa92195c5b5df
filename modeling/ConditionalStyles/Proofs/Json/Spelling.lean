import ConditionalStyles.Json.Document

/-!
All spellings of JSON values: blanks may stand between the parts of a text, the characters of a
string may be escaped or not, and numerals may have a point and an exponent of any size. A spelling
is a tree with everything that stands in the text. It has a value unless it holds half of a
surrogate pair or a number that is too large.
-/
namespace ConditionalStyles.Json

open Text

namespace Value

mutual

/-- How many arrays and objects are open at a time. -/
def nesting : Value → Nat
  | null => 0
  | bool _ => 0
  | number _ => 0
  | string _ => 0
  | array items => nestingItems items + 1
  | object fields => nestingFields fields + 1

def nestingItems : List Value → Nat
  | [] => 0
  | item :: rest => max (nesting item) (nestingItems rest)

def nestingFields : List (String × Value) → Nat
  | [] => 0
  | (_, value) :: rest => max (nesting value) (nestingFields rest)

end

theorem nestingItems_le_iff {items : List Value} {depth : Nat} :
    nestingItems items ≤ depth ↔ ∀ item ∈ items, item.nesting ≤ depth := by
  induction items with
  | nil => simp [nestingItems]
  | cons item rest ih => rw [nestingItems, Nat.max_le, ih, List.forall_mem_cons]

/-- Texts with commas between them. -/
def separated {α : Type} (text : α → List Char) : List α → List Char
  | [] => []
  | a :: as => text a ++ as.flatMap fun next => ',' :: text next

end Value

/-- Blanks between the parts of a text. -/
structure Blanks where
  chars : List Char := []
  blank : chars.all Reader.isBlank = true := by rfl

/-- Something with blanks around it. -/
structure Padded (α : Type) where
  before : Blanks := {}
  body : α
  after : Blanks := {}

def Padded.text (part : Padded (List Char)) : List Char :=
  part.before.chars ++ (part.body ++ part.after.chars)

/-- Lower or upper case. -/
structure HexDigit where
  char : Char
  value : Nat
  reads : Reader.hexValue? char = some value

/-- The number of a unit of sixteen bits. -/
structure HexUnit where
  a : HexDigit
  b : HexDigit
  c : HexDigit
  d : HexDigit

namespace HexUnit

def text (u : HexUnit) : List Char := [u.a.char, u.b.char, u.c.char, u.d.char]

def value (u : HexUnit) : Nat :=
  ((u.a.value * 16 + u.b.value) * 16 + u.c.value) * 16 + u.d.value

end HexUnit

/-- What a string literal is made of. -/
inductive Piece where
  | plain (c : Char) (h : c ≠ '"' ∧ c ≠ '\\' ∧ ¬ c.toNat < 0x20)
  | escape (letter c : Char) (h : Reader.simpleEscape? letter = some c)
  | unit (u : HexUnit)
  | pair (lead trail : HexUnit)

namespace Piece

def text : Piece → List Char
  | plain c _ => [c]
  | escape letter _ _ => ['\\', letter]
  | unit u => '\\' :: 'u' :: u.text
  | pair lead trail => '\\' :: 'u' :: (lead.text ++ '\\' :: 'u' :: trail.text)

/-- Half of a surrogate pair is not a character. -/
def char? : Piece → Option Char
  | plain c _ => some c
  | escape _ c _ => some c
  | unit u => if isLeadUnit u.value || isTrailUnit u.value then none else some (Char.ofNat u.value)
  | pair lead trail =>
    if isLeadUnit lead.value && isTrailUnit trail.value then some (joinUnits lead.value trail.value)
    else none

end Piece

/-- The text of a string between its quotes. -/
abbrev Literal := List Piece

namespace Literal

def text (l : Literal) : List Char := '"' :: (l.flatMap Piece.text ++ ['"'])

def chars? : Literal → Option (List Char)
  | [] => some []
  | piece :: rest =>
    match piece.char?, chars? rest with
    | some c, some cs => some (c :: cs)
    | _, _ => none

def string? (l : Literal) : Option String := (chars? l).map String.ofList

end Literal

/-- A numeral and how its exponent is marked. -/
structure NumberText where
  numeral : Numeral
  upper : Bool := false
  /-- A plus stands before an exponent that is not negative. -/
  plus : Bool := false
  whole : numeral.whole ≠ [] ∧ numeral.whole.all Char.isDigit = true
  leading : ∀ rest, numeral.whole = '0' :: rest → rest = []
  fraction : numeral.fraction.all Char.isDigit = true
  exponent : ∀ minus digits, numeral.exponent = some (minus, digits) →
    digits ≠ [] ∧ digits.all Char.isDigit = true

namespace NumberText

def fractionText (n : NumberText) : List Char :=
  if n.numeral.fraction.isEmpty then [] else '.' :: n.numeral.fraction

def exponentText (n : NumberText) : List Char :=
  match n.numeral.exponent with
  | none => []
  | some (minus, digits) =>
    (if n.upper then 'E' else 'e') ::
      ((if minus then ['-'] else if n.plus then ['+'] else []) ++ digits)

def text (n : NumberText) : List Char :=
  (if n.numeral.negative then ['-'] else []) ++
    (n.numeral.whole ++ (n.fractionText ++ n.exponentText))

end NumberText

inductive Spelling where
  | null
  | bool (b : Bool)
  | number (n : NumberText)
  | string (l : Literal)
  | array (items : List (Padded Spelling)) (inside : Blanks)
  | object (fields : List (Padded Literal × Padded Spelling)) (inside : Blanks)

/-- Parts with commas between them, in brackets. -/
def enclosed (opening closing : Char) (parts : List (Padded (List Char))) (inside : Blanks) :
    List Char :=
  opening :: (Value.separated Padded.text parts ++ (inside.chars ++ [closing]))

namespace Spelling

/-- A name and a value with a colon between them. -/
def fieldPart (name : Padded Literal) (before : Blanks) (value : List Char) (after : Blanks) :
    Padded (List Char) :=
  ⟨name.before, name.body.text ++ (name.after.chars ++ ':' :: (before.chars ++ value)), after⟩

mutual

def text : Spelling → List Char
  | null => "null".toList
  | bool true => "true".toList
  | bool false => "false".toList
  | number n => n.text
  | string l => l.text
  | array items inside => enclosed '[' ']' (itemParts items) inside
  | object fields inside => enclosed '\x7b' '\x7d' (fieldParts fields) inside

def itemParts : List (Padded Spelling) → List (Padded (List Char))
  | [] => []
  | ⟨before, item, after⟩ :: rest => ⟨before, text item, after⟩ :: itemParts rest

def fieldParts : List (Padded Literal × Padded Spelling) → List (Padded (List Char))
  | [] => []
  | (name, ⟨before, value, after⟩) :: rest =>
    fieldPart name before (text value) after :: fieldParts rest

end

theorem text_number (n : NumberText) : (number n).text = n.text := rfl

theorem text_string (l : Literal) : (string l).text = l.text := rfl

theorem text_array (items : List (Padded Spelling)) (inside : Blanks) :
    (array items inside).text = enclosed '[' ']' (itemParts items) inside := rfl

theorem text_object (fields : List (Padded Literal × Padded Spelling)) (inside : Blanks) :
    (object fields inside).text = enclosed '\x7b' '\x7d' (fieldParts fields) inside := rfl

mutual

def value? : Spelling → Option Value
  | null => some .null
  | bool b => some (.bool b)
  | number n => n.numeral.toNumber?.map .number
  | string l => l.string?.map .string
  | array items _ => (itemValues? items).map .array
  | object fields _ => (fieldValues? fields).map .object

def itemValues? : List (Padded Spelling) → Option (List Value)
  | [] => some []
  | ⟨_, item, _⟩ :: rest =>
    match value? item, itemValues? rest with
    | some v, some vs => some (v :: vs)
    | _, _ => none

def fieldValues? : List (Padded Literal × Padded Spelling) → Option (List (String × Value))
  | [] => some []
  | (name, ⟨_, value, _⟩) :: rest =>
    match name.body.string?, value? value, fieldValues? rest with
    | some key, some v, some vs => some ((key, v) :: vs)
    | _, _, _ => none

end

mutual

/-- How many arrays and objects are open at a time. -/
def nesting : Spelling → Nat
  | null => 0
  | bool _ => 0
  | number _ => 0
  | string _ => 0
  | array items _ => nestingItems items + 1
  | object fields _ => nestingFields fields + 1

def nestingItems : List (Padded Spelling) → Nat
  | [] => 0
  | ⟨_, item, _⟩ :: rest => max (nesting item) (nestingItems rest)

def nestingFields : List (Padded Literal × Padded Spelling) → Nat
  | [] => 0
  | (_, ⟨_, value, _⟩) :: rest => max (nesting value) (nestingFields rest)

end

mutual

/-- A spelling is nested as deep as its value. -/
theorem nesting_of_value? : (s : Spelling) → (v : Value) → s.value? = some v →
    v.nesting = s.nesting
  | null, v, h => by
    cases h
    rfl
  | bool b, v, h => by
    cases h
    rfl
  | number n, v, h => by
    obtain ⟨number, -, rfl⟩ := Option.map_eq_some_iff.mp h
    rfl
  | string l, v, h => by
    obtain ⟨s, -, rfl⟩ := Option.map_eq_some_iff.mp h
    rfl
  | array items inside, v, h => by
    obtain ⟨vs, hvs, rfl⟩ := Option.map_eq_some_iff.mp h
    rw [Value.nesting, nesting, nestingItems_of_itemValues? items vs hvs]
  | object fields inside, v, h => by
    obtain ⟨vs, hvs, rfl⟩ := Option.map_eq_some_iff.mp h
    rw [Value.nesting, nesting, nestingFields_of_fieldValues? fields vs hvs]

theorem nestingItems_of_itemValues? : (items : List (Padded Spelling)) → (vs : List Value) →
    itemValues? items = some vs → Value.nestingItems vs = nestingItems items
  | [], vs, h => by
    cases h
    rfl
  | ⟨before, item, after⟩ :: items, vs, h => by
    rw [itemValues?] at h
    split at h
    · next v vs hv hvs =>
      cases h
      rw [Value.nestingItems, nestingItems, nesting_of_value? item v hv,
        nestingItems_of_itemValues? items vs hvs]
    · cases h

theorem nestingFields_of_fieldValues? : (fields : List (Padded Literal × Padded Spelling)) →
    (vs : List (String × Value)) → fieldValues? fields = some vs →
    Value.nestingFields vs = nestingFields fields
  | [], vs, h => by
    cases h
    rfl
  | (name, ⟨before, value, after⟩) :: fields, vs, h => by
    rw [fieldValues?] at h
    split at h
    · next key v vs hkey hv hvs =>
      cases h
      rw [Value.nestingFields, nestingFields, nesting_of_value? value v hv,
        nestingFields_of_fieldValues? fields vs hvs]
    · cases h

end

/-- The spelling of every field, by its name. -/
def named? : List (Padded Literal × Padded Spelling) → Option (List (String × Spelling))
  | [] => some []
  | (name, value) :: rest =>
    match name.body.string?, named? rest with
    | some key, some fs => some ((key, value.body) :: fs)
    | _, _ => none

/-- The fields of an object whose names are strings. -/
def fields? : Spelling → Option (List (String × Spelling))
  | object fields _ => named? fields
  | _ => none

end Spelling

namespace Reader

theorem get_ok (s : List Char) : (get : Reader (List Char)) s = .ok (s, s) := rfl

theorem take_cons (c : Char) (rest : List Char) : take (c :: rest) = .ok (c, rest) := rfl

theorem advance_cons (c : Char) (rest : List Char) : advance (c :: rest) = .ok ((), rest) := rfl

section Literals

/-- An escape with a letter of its own. -/
theorem character?_simpleEscape {c d : Char} (h : simpleEscape? d = some c) (rest : List Char) :
    character? ('\\' :: d :: rest) = .ok (some c, rest) := by
  have hescaped : escaped (d :: rest) = .ok (c, rest) := by
    rw [escaped, bind_ok (take_cons d rest), h]
    rfl
  rw [character?, bind_ok (take_cons _ _), if_neg (by decide), if_pos rfl, bind_ok hescaped]
  rfl

theorem hexUnit_text (u : HexUnit) (rest : List Char) :
    hexUnit (u.text ++ rest) = .ok (u.value, rest) := by
  simp [HexUnit.text, hexUnit, u.a.reads, u.b.reads, u.c.reads, u.d.reads, HexUnit.value]

theorem unitEscape_unit {u : HexUnit} (hlead : isLeadUnit u.value = false)
    (htrail : isTrailUnit u.value = false) (rest : List Char) :
    unitEscape (u.text ++ rest) = .ok (Char.ofNat u.value, rest) := by
  rw [unitEscape, bind_ok (hexUnit_text u rest), htrail, hlead]
  rfl

theorem not_isTrailUnit_of_isLeadUnit {n : Nat} (h : isLeadUnit n = true) :
    isTrailUnit n = false := by
  simp only [isLeadUnit, Bool.and_eq_true, decide_eq_true_eq] at h
  simp only [isTrailUnit, Bool.and_eq_false_iff, decide_eq_false_iff_not]
  omega

theorem unitEscape_pair {lead trail : HexUnit} (hlead : isLeadUnit lead.value = true)
    (htrail : isTrailUnit trail.value = true) (rest : List Char) :
    unitEscape (lead.text ++ '\\' :: 'u' :: (trail.text ++ rest)) =
      .ok (joinUnits lead.value trail.value, rest) := by
  have hbackslash (s : List Char) : expect '\\' ('\\' :: s) = .ok ((), s) := rfl
  have hletter (s : List Char) : expect 'u' ('u' :: s) = .ok ((), s) := rfl
  rw [unitEscape, bind_ok (hexUnit_text lead _), not_isTrailUnit_of_isLeadUnit hlead, hlead,
    if_neg (by decide), if_pos rfl, bind_ok (hbackslash _), bind_ok (hletter _),
    bind_ok (hexUnit_text trail rest), htrail]
  rfl

/-- An escape by a unit, after its `u`. -/
theorem character?_unit {c : Char} {s rest : List Char} (h : unitEscape s = .ok (c, rest)) :
    character? ('\\' :: 'u' :: s) = .ok (some c, rest) := by
  have hescaped : escaped ('u' :: s) = .ok (c, rest) := h
  rw [character?, bind_ok (take_cons _ _), if_neg (by decide), if_pos rfl, bind_ok hescaped]
  rfl

/-- A piece is read as its character. -/
theorem character?_piece {piece : Piece} {c : Char} (h : piece.char? = some c)
    (rest : List Char) : character? (piece.text ++ rest) = .ok (some c, rest) := by
  cases piece with
  | plain d hd =>
    cases h
    rw [Piece.text, List.singleton_append, character?, bind_ok (take_cons c rest), if_neg hd.1,
      if_neg hd.2.1, if_neg hd.2.2]
    rfl
  | escape letter d hd =>
    cases h
    exact character?_simpleEscape hd rest
  | unit u =>
    rw [Piece.char?] at h
    split at h
    · cases h
    · next hunit =>
      obtain rfl := Option.some_inj.mp h
      rw [Bool.not_eq_true, Bool.or_eq_false_iff] at hunit
      have hread := character?_unit (unitEscape_unit hunit.1 hunit.2 rest)
      simpa [Piece.text] using hread
  | pair lead trail =>
    rw [Piece.char?] at h
    split at h
    · next hpair =>
      obtain rfl := Option.some_inj.mp h
      rw [Bool.and_eq_true] at hpair
      have hread := character?_unit (unitEscape_pair hpair.1 hpair.2 rest)
      simpa [Piece.text] using hread
    · cases h

theorem charactersFrom_pieces {l : Literal} {cs : List Char} (h : Literal.chars? l = some cs)
    (rest : List Char) (rounds : Nat) (hrounds : l.length < rounds) :
    charactersFrom rounds (l.flatMap Piece.text ++ '"' :: rest) = .ok (cs, rest) := by
  induction l generalizing cs rounds with
  | nil =>
    obtain ⟨rounds, rfl⟩ := Nat.exists_eq_succ_of_ne_zero (Nat.ne_of_gt hrounds)
    cases h
    rfl
  | cons piece l ih =>
    rw [List.length_cons] at hrounds
    obtain ⟨rounds, rfl⟩ := Nat.exists_eq_succ_of_ne_zero (n := rounds) (by omega)
    rw [Literal.chars?] at h
    split at h
    · next c cs hpiece hrest =>
      cases h
      have hread := ih hrest rounds (by omega)
      rw [List.flatMap_cons, List.append_assoc, charactersFrom,
        bind_ok (character?_piece hpiece _)]
      exact (bind_ok hread).trans rfl
    · cases h

theorem length_le_pieces (l : Literal) : l.length ≤ (l.flatMap Piece.text).length := by
  induction l with
  | nil => exact Nat.le_refl 0
  | cons piece l ih =>
    have hpos : 0 < piece.text.length := by cases piece <;> simp [Piece.text]
    rw [List.flatMap_cons, List.length_append, List.length_cons]
    omega

/-- A literal is read up to its closing quote, in every spelling. -/
theorem stringBody_pieces {l : Literal} {s : String} (h : l.string? = some s)
    (rest : List Char) :
    stringBody (l.flatMap Piece.text ++ '"' :: rest) = .ok (s, rest) := by
  obtain ⟨cs, hcs, rfl⟩ := Option.map_eq_some_iff.mp h
  have hlength := length_le_pieces l
  have hread := charactersFrom_pieces hcs rest (l.flatMap Piece.text ++ '"' :: rest).length
    (by rw [List.length_append, List.length_cons]; omega)
  rw [stringBody, bind_ok (get_ok _), bind_ok hread, pure_ok]

theorem fieldName_quote (rest : List Char) : fieldName ('"' :: rest) = stringBody rest := rfl

theorem fieldName_text {l : Literal} {s : String} (h : l.string? = some s) (rest : List Char) :
    fieldName (l.text ++ rest) = .ok (s, rest) := by
  rw [Literal.text, List.cons_append, List.append_assoc, List.singleton_append, fieldName_quote,
    stringBody_pieces h]

/-- How many rounds it takes to pass over a piece. -/
def pieceRounds : Piece → Nat
  | .plain _ _ => 1
  | .escape _ _ _ => 1
  | .unit _ => 1
  | .pair _ _ => 2

theorem skipStringFrom_unit (u : HexUnit) (rounds : Nat) (rest : List Char) :
    skipStringFrom (rounds + 1) ('\\' :: 'u' :: (u.text ++ rest)) =
      skipStringFrom rounds rest := by
  have hescaped : skipEscaped ('u' :: (u.text ++ rest)) = .ok ((), rest) := by
    rw [skipEscaped, bind_ok (take_cons _ _), if_neg (by decide), if_pos rfl,
      bind_ok (hexUnit_text u rest)]
    rfl
  rw [skipStringFrom, bind_ok (take_cons _ _), if_neg (by decide), if_pos rfl, bind_ok hescaped]

/-- Passing over a piece does not look at its value. -/
theorem skipStringFrom_piece (piece : Piece) (rounds : Nat) (rest : List Char) :
    skipStringFrom (rounds + pieceRounds piece) (piece.text ++ rest) =
      skipStringFrom rounds rest := by
  cases piece with
  | plain c hc =>
    rw [pieceRounds, Piece.text, List.singleton_append, skipStringFrom, bind_ok (take_cons c rest),
      if_neg hc.1, if_neg hc.2.1, if_neg hc.2.2]
  | escape letter c hc =>
    have hescaped : skipEscaped (letter :: rest) = .ok ((), rest) := by
      rw [skipEscaped, bind_ok (take_cons _ _), hc, Option.isSome_some, if_pos rfl, pure_ok]
    change skipStringFrom (rounds + 1) ('\\' :: letter :: rest) = _
    rw [skipStringFrom, bind_ok (take_cons _ _), if_neg (by decide), if_pos rfl, bind_ok hescaped]
  | unit u => exact skipStringFrom_unit u rounds rest
  | pair lead trail =>
    have hfirst := skipStringFrom_unit lead (rounds + 1) ('\\' :: 'u' :: (trail.text ++ rest))
    rw [skipStringFrom_unit trail rounds rest] at hfirst
    simpa [Piece.text, pieceRounds] using hfirst

theorem skipStringFrom_pieces (l : Literal) (rest : List Char) (rounds : Nat)
    (hrounds : (l.flatMap Piece.text).length < rounds) :
    skipStringFrom rounds (l.flatMap Piece.text ++ '"' :: rest) = .ok ((), rest) := by
  induction l generalizing rounds with
  | nil =>
    obtain ⟨rounds, rfl⟩ := Nat.exists_eq_succ_of_ne_zero (Nat.ne_of_gt hrounds)
    rfl
  | cons piece l ih =>
    have hpiece : pieceRounds piece ≤ piece.text.length := by
      cases piece <;> simp [Piece.text, pieceRounds]
    rw [List.flatMap_cons, List.length_append] at hrounds
    obtain ⟨left, rfl⟩ := Nat.exists_eq_add_of_le' (m := pieceRounds piece) (n := rounds) (by omega)
    rw [List.flatMap_cons, List.append_assoc, skipStringFrom_piece, ih left (by omega)]

theorem skipStringBody_pieces (l : Literal) (rest : List Char) :
    skipStringBody (l.flatMap Piece.text ++ '"' :: rest) = .ok ((), rest) := by
  rw [skipStringBody, bind_ok (get_ok _)]
  apply skipStringFrom_pieces
  rw [List.length_append, List.length_cons]
  omega

end Literals

section Numerals

/-- No numeral goes on here. -/
def Ends (rest : List Char) : Prop :=
  ∀ c ∈ rest.head?, isBlank c = true ∨ c = ',' ∨ c = ']' ∨ c = '\x7d'

theorem Ends.nil : Ends [] := by
  intro c hc
  cases hc

def NoDigit (rest : List Char) : Prop := ∀ c ∈ rest.head?, c.isDigit = false

theorem Ends.not_numeral {rest : List Char} (h : Ends rest) :
    ∀ c ∈ rest.head?, c.isDigit = false ∧ c ≠ '.' ∧ c ≠ 'e' ∧ c ≠ 'E' := by
  intro c hc
  have hcases := h c hc
  simp only [isBlank, Bool.or_eq_true, decide_eq_true_eq, or_assoc] at hcases
  rcases hcases with rfl | rfl | rfl | rfl | rfl | rfl | rfl <;> decide

theorem digits_append {ds rest : List Char} (hds : ds.all Char.isDigit = true)
    (hrest : NoDigit rest) : digits (ds ++ rest) = .ok (ds, rest) := by
  rw [List.all_eq_true] at hds
  have hstop : rest.takeWhile Char.isDigit = [] ∧ rest.dropWhile Char.isDigit = rest := by
    cases rest with
    | nil => exact ⟨rfl, rfl⟩
    | cons c cs =>
      have hc : c.isDigit = false := hrest c rfl
      exact ⟨List.takeWhile_cons_of_neg (by simp [hc]), List.dropWhile_cons_of_neg (by simp [hc])⟩
  rw [digits, List.takeWhile_append_of_pos hds, List.dropWhile_append_of_pos hds, hstop.1, hstop.2,
    List.append_nil]

theorem someDigits_append {ds rest : List Char} (hne : ds ≠ [])
    (hds : ds.all Char.isDigit = true) (hrest : NoDigit rest) :
    someDigits (ds ++ rest) = .ok (ds, rest) := by
  have hdigits := digits_append hds hrest
  cases ds with
  | nil => exact absurd rfl hne
  | cons c cs =>
    have hc : c.isDigit = true := by
      rw [List.all_cons, Bool.and_eq_true] at hds
      exact hds.1
    rw [someDigits, bind_ok (get_ok _)]
    simp only [List.cons_append, hc, if_true]
    exact hdigits

/-- Digits are no signs. -/
theorem exists_digit {ds : List Char} (hne : ds ≠ []) (hds : ds.all Char.isDigit = true) :
    ∃ c cs, ds = c :: cs ∧ c.isDigit = true ∧ c ≠ '-' ∧ c ≠ '+' := by
  cases ds with
  | nil => exact absurd rfl hne
  | cons c cs =>
    rw [List.all_cons, Bool.and_eq_true] at hds
    refine ⟨c, cs, rfl, hds.1, ?_, ?_⟩
    · rintro rfl
      exact absurd hds.1 (by decide)
    · rintro rfl
      exact absurd hds.1 (by decide)

section Parts

variable (n : NumberText) {rest : List Char}

theorem sign_text (rest : List Char) :
    sign ((if n.numeral.negative then ['-'] else []) ++ (n.numeral.whole ++ rest)) =
      .ok (n.numeral.negative, n.numeral.whole ++ rest) := by
  cases n.numeral.negative with
  | true => rfl
  | false =>
    obtain ⟨c, cs, hwhole, -, hminus, -⟩ := exists_digit n.whole.1 n.whole.2
    rw [if_neg (by decide), List.nil_append, hwhole, List.cons_append, sign, bind_ok (get_ok _)]
    generalize hs : c :: (cs ++ rest) = s
    split
    · injection hs with hc
      exact absurd hc hminus
    · rfl

theorem wholePart_text (hrest : NoDigit rest) :
    wholePart (n.numeral.whole ++ rest) = .ok (n.numeral.whole, rest) := by
  have hleading := n.leading
  rw [wholePart, bind_ok (someDigits_append n.whole.1 n.whole.2 hrest)]
  generalize n.numeral.whole = whole at hleading
  split
  · exact absurd (hleading _ rfl) (by simp)
  · rfl

theorem fractionPart_text (hrest : NoDigit rest) (hpoint : ∀ c ∈ rest.head?, c ≠ '.') :
    fractionPart (n.fractionText ++ rest) = .ok (n.numeral.fraction, rest) := by
  by_cases hempty : n.numeral.fraction = []
  · rw [NumberText.fractionText, hempty, List.isEmpty_nil, if_pos rfl, List.nil_append,
      fractionPart, bind_ok (get_ok _)]
    split
    · exact absurd rfl (hpoint '.' rfl)
    · rfl
  · have hdigits := someDigits_append hempty n.fraction hrest
    rw [NumberText.fractionText, if_neg (by simpa using hempty), List.cons_append, fractionPart,
      bind_ok (get_ok _)]
    exact (bind_ok (advance_cons '.' _)).trans hdigits

theorem exponentSign_text {minus : Bool} {ds : List Char} (hne : ds ≠ [])
    (hds : ds.all Char.isDigit = true) (rest : List Char) :
    exponentSign ((if minus then ['-'] else if n.plus then ['+'] else []) ++ (ds ++ rest)) =
      .ok (minus, ds ++ rest) := by
  obtain ⟨c, cs, rfl, -, hminus, hplus⟩ := exists_digit hne hds
  cases minus with
  | true => rfl
  | false =>
    rw [if_neg (by decide)]
    cases n.plus with
    | true => rfl
    | false =>
      rw [if_neg (by decide), List.nil_append, List.cons_append, exponentSign, bind_ok (get_ok _)]
      generalize hs : c :: (cs ++ rest) = s
      split
      · injection hs with hc
        exact absurd hc hplus
      · injection hs with hc
        exact absurd hc hminus
      · rfl

theorem exponentPart_text (hrest : Ends rest) :
    exponentPart (n.exponentText ++ rest) = .ok (n.numeral.exponent, rest) := by
  rw [NumberText.exponentText]
  cases hexponent : n.numeral.exponent with
  | none =>
    rw [List.nil_append, exponentPart, bind_ok (get_ok _)]
    cases rest with
    | nil => rfl
    | cons c cs =>
      obtain ⟨-, -, hlower, hupper⟩ := hrest.not_numeral c rfl
      simp only [hlower, hupper, or_self, if_false]
      rfl
  | some exponent =>
    obtain ⟨minus, ds⟩ := exponent
    obtain ⟨hne, hds⟩ := n.exponent minus ds hexponent
    have hmark : (if n.upper then 'E' else 'e') = 'e' ∨ (if n.upper then 'E' else 'e') = 'E' := by
      cases n.upper <;> decide
    have hstop : NoDigit rest := fun c hc => (hrest.not_numeral c hc).1
    simp only [List.cons_append, List.append_assoc]
    rw [exponentPart, bind_ok (get_ok _)]
    simp only [hmark, if_true]
    rw [bind_ok (advance_cons _ _), bind_ok (exponentSign_text n hne hds rest),
      bind_ok (someDigits_append hne hds hstop)]
    rfl

theorem exponentText_head (hrest : Ends rest) :
    ∀ c ∈ (n.exponentText ++ rest).head?, c.isDigit = false ∧ c ≠ '.' := by
  rw [NumberText.exponentText]
  cases n.numeral.exponent with
  | none => exact fun c hc => ⟨(hrest.not_numeral c hc).1, (hrest.not_numeral c hc).2.1⟩
  | some exponent =>
    intro c hc
    obtain rfl := Option.some_inj.mp hc
    cases n.upper <;> decide

theorem fractionText_head (hrest : Ends rest) :
    NoDigit (n.fractionText ++ (n.exponentText ++ rest)) := by
  rw [NumberText.fractionText]
  split
  · exact fun c hc => (exponentText_head n hrest c hc).1
  · intro c hc
    obtain rfl := Option.some_inj.mp hc
    decide

/-- A numeral is read to its end. -/
theorem numeral_text (hrest : Ends rest) : numeral (n.text ++ rest) = .ok (n.numeral, rest) := by
  have hexponent := exponentText_head n hrest
  simp only [NumberText.text, List.append_assoc]
  rw [numeral, bind_ok (sign_text n _), bind_ok (wholePart_text n (fractionText_head n hrest)),
    bind_ok (fractionPart_text n (fun c hc => (hexponent c hc).1) fun c hc => (hexponent c hc).2),
    bind_ok (exponentPart_text n hrest)]
  rfl

/-- The text of a numeral starts with a minus or a digit. -/
theorem numberText_start : ∃ c cs, n.text = c :: cs ∧ (c = '-' ∨ c.isDigit = true) := by
  rw [NumberText.text]
  cases n.numeral.negative with
  | true => exact ⟨'-', _, rfl, Or.inl rfl⟩
  | false =>
    obtain ⟨c, cs, hwhole, hc, -⟩ := exists_digit n.whole.1 n.whole.2
    exact ⟨c, _, by rw [hwhole]; rfl, Or.inr hc⟩

end Parts

end Numerals

end Reader

end ConditionalStyles.Json
