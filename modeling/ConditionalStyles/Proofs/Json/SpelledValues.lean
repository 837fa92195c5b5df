import ConditionalStyles.Proofs.Json.Spelling
import Mathlib.Data.List.Forall2

/-!
Values read from all of their spellings. A spelling that has a value is read as that value, if it is
not nested too deep, and the reader stops at the first array or object too many if it is. Every
spelling can be passed over. All of this follows from what one round of the loops over items and
fields does.
-/
namespace ConditionalStyles.Json.Reader

variable {α β σ : Type}

/-- The reader takes the text for the value if it fits, and leaves the rest, where no numeral goes
on; if it does not fit, the reader calls it malformed. -/
def Reads (reader : Reader α) (text : List Char) (a : α) (fits : Bool) : Prop :=
  ∀ rest, Ends rest →
    reader (text ++ rest) = if fits then .ok (a, rest) else .error .malformed

abbrev Takes (reader : Reader α) (text : List Char) (a : α) : Prop := Reads reader text a true

/-- Readers that come to the same go on in the same way. -/
theorem bind_eq_of_eq {p q : Reader α} {s t : List Char} (h : p s = q t) (f : α → Reader β) :
    (p >>= f) s = (q >>= f) t := by
  change (do let r ← p s; f r.1 r.2) = (do let r ← q t; f r.1 r.2)
  rw [h]

/-- After a text that does not fit, nothing is read. -/
theorem bind_fits {p : Reader α} {f : α → Reader β} {s r : List Char} {a : α} {fits : Bool}
    (h : p s = if fits then .ok (a, r) else .error .malformed) :
    (p >>= f) s = if fits then f a r else .error .malformed := by
  cases fits with
  | false => exact bind_error h
  | true => exact bind_ok h

/-- The reader does not mind blanks before what it reads. -/
def PassesBlanks (reader : Reader α) : Prop :=
  ∀ (b : Blanks) (s : List Char), reader (b.chars ++ s) = reader s

theorem Reads.blanks {reader : Reader α} {text : List Char} {a : α} {fits : Bool}
    (h : Reads reader text a fits) (hpasses : PassesBlanks reader) (b : Blanks) :
    Reads reader (b.chars ++ text) a fits := by
  intro rest hrest
  rw [List.append_assoc, hpasses, h rest hrest]

theorem peek?_cons {c : Char} (hc : isBlank c = false) (rest : List Char) :
    peek? (c :: rest) = .ok (some c, c :: rest) := by
  simp [peek?, hc]

section Blanks

variable (b : Blanks) (s : List Char)

theorem dropWhile_blanks : (b.chars ++ s).dropWhile isBlank = s.dropWhile isBlank :=
  List.dropWhile_append_of_pos (List.all_eq_true.mp b.blank)

theorem peek?_blanks : peek? (b.chars ++ s) = peek? s := by
  rw [peek?, peek?, dropWhile_blanks]

/-- A reader that looks at what comes next passes the blanks before it. -/
theorem bind_peek?_blanks (f : Option Char → Reader β) :
    (peek? >>= f) (b.chars ++ s) = (peek? >>= f) s := bind_eq_of_eq (peek?_blanks b s) f

theorem anotherItem_blanks (first : Bool) :
    anotherItem first (b.chars ++ s) = anotherItem first s := bind_peek?_blanks b s _

theorem anotherField_blanks (first : Bool) :
    anotherField first (b.chars ++ s) = anotherField first s := bind_peek?_blanks b s _

theorem anotherItem_first {c : Char} (hc : isBlank c = false) (hend : c ≠ ']')
    (rest : List Char) : anotherItem true (c :: rest) = .ok (true, c :: rest) := by
  rw [anotherItem, bind_ok (peek?_cons hc rest)]
  simp only
  rfl

theorem anotherItem_comma_blanks {c : Char} (hc : isBlank c = false) (hend : c ≠ ']')
    (rest : List Char) :
    anotherItem false (',' :: (b.chars ++ c :: rest)) = .ok (true, c :: rest) := by
  have hcomma : isBlank ',' = false := rfl
  rw [anotherItem, bind_ok (peek?_cons hcomma _)]
  refine (bind_ok (advance_cons ',' _)).trans ?_
  rw [bind_peek?_blanks, bind_ok (peek?_cons hc rest)]
  simp only
  rfl

theorem anotherField_comma_blanks :
    anotherField false (',' :: (b.chars ++ '"' :: s)) = .ok (true, '"' :: s) := by
  have hcomma : isBlank ',' = false := rfl
  rw [anotherField, bind_ok (peek?_cons hcomma _)]
  refine (bind_ok (advance_cons ',' _)).trans ?_
  rw [bind_peek?_blanks]
  rfl

theorem colon_blanks : colon (b.chars ++ ':' :: s) = .ok ((), s) := bind_peek?_blanks b _ _

end Blanks

theorem passesBlanks_value (depth : Nat) : PassesBlanks (value depth) := by
  intro b s
  cases depth with
  | zero => exact bind_peek?_blanks b s _
  | succ depth => exact bind_peek?_blanks b s _

theorem Ends.blanks {rest : List Char} (h : Ends rest) (b : Blanks) : Ends (b.chars ++ rest) := by
  intro c hc
  cases hb : b.chars with
  | nil =>
    rw [hb] at hc
    exact h c hc
  | cons d ds =>
    rw [hb] at hc
    obtain rfl := Option.some_inj.mp hc
    have hblank := b.blank
    rw [hb, List.all_cons, Bool.and_eq_true] at hblank
    exact Or.inl hblank.1

/-- What follows a part: further parts with commas before them, and the closing bracket. -/
def remainder (last : Blanks) (parts : List (Padded (List Char))) (inside : Blanks)
    (closing : Char) (rest : List Char) : List Char :=
  last.chars ++ ((parts.flatMap fun part => ',' :: part.text) ++ (inside.chars ++ closing :: rest))

theorem remainder_cons (last : Blanks) (part : Padded (List Char))
    (parts : List (Padded (List Char))) (inside : Blanks) (closing : Char) (rest : List Char) :
    remainder last (part :: parts) inside closing rest =
      last.chars ++ ',' :: (part.before.chars ++ (part.body ++
        remainder part.after parts inside closing rest)) := by
  simp [remainder, Padded.text]

theorem ends_remainder {closing : Char} (hclosing : closing = ']' ∨ closing = '\x7d')
    (last : Blanks) (parts : List (Padded (List Char))) (inside : Blanks) (rest : List Char) :
    Ends (remainder last parts inside closing rest) := by
  apply Ends.blanks
  cases parts with
  | nil =>
    apply Ends.blanks
    intro c hc
    obtain rfl := Option.some_inj.mp hc
    exact Or.inr (Or.inr hclosing)
  | cons part parts =>
    intro c hc
    obtain rfl := Option.some_inj.mp hc
    exact Or.inr (Or.inl rfl)

/-- The text in brackets, part by part. -/
theorem separated_append (part : Padded (List Char)) (parts : List (Padded (List Char)))
    (inside : Blanks) (closing : Char) (rest : List Char) :
    Value.separated Padded.text (part :: parts) ++ (inside.chars ++ closing :: rest) =
      part.before.chars ++ (part.body ++ remainder part.after parts inside closing rest) := by
  simp [Value.separated, remainder, Padded.text]

theorem length_remainder_pos (last : Blanks) (parts : List (Padded (List Char)))
    (inside : Blanks) (closing : Char) (rest : List Char) :
    0 < (remainder last parts inside closing rest).length := by
  simp only [remainder, List.length_append, List.length_cons]
  omega

/-- What follows gets shorter with every part. -/
theorem length_remainder_lt (last : Blanks) (part : Padded (List Char))
    (parts : List (Padded (List Char))) (inside : Blanks) (closing : Char) (rest : List Char) :
    (remainder part.after parts inside closing rest).length <
      (remainder last (part :: parts) inside closing rest).length := by
  rw [remainder_cons]
  simp only [List.length_append, List.length_cons]
  omega

/-- With a comma before the first part, the text in brackets is at most one longer. -/
theorem length_remainder_le (parts : List (Padded (List Char))) (inside : Blanks) (closing : Char)
    (rest : List Char) :
    (remainder {} parts inside closing rest).length ≤
      (Value.separated Padded.text parts ++ (inside.chars ++ closing :: rest)).length + 1 := by
  cases parts with
  | nil => exact Nat.le_succ _
  | cons part parts =>
    rw [separated_append, remainder_cons]
    exact Nat.le_refl _

section Items

variable {item : Reader α} {fits : α → Bool} {parts : List (Padded (List Char))} {as : List α}
  (inside : Blanks)

/-- The text starts neither with a blank nor with the end of an array. -/
def Starts (text : List Char) : Prop := ∃ c cs, text = c :: cs ∧ isBlank c = false ∧ c ≠ ']'

theorem anotherItem_end (last : Blanks) (rest : List Char) :
    anotherItem false (remainder last [] inside ']' rest) = .ok (false, ']' :: rest) := by
  rw [remainder, anotherItem_blanks, List.flatMap_nil, List.nil_append, anotherItem_blanks]
  rfl

theorem anotherItem_remainder (last : Blanks) {part : Padded (List Char)} (h : Starts part.body)
    (rest : List Char) :
    anotherItem false (remainder last (part :: parts) inside ']' rest) =
      .ok (true, part.body ++ remainder part.after parts inside ']' rest) := by
  obtain ⟨c, cs, hbody, hc, hbracket⟩ := h
  rw [remainder_cons, anotherItem_blanks, hbody]
  exact anotherItem_comma_blanks part.before hc hbracket _

/-- The first item is found as if there were a comma before it. -/
theorem anotherItem_separated (h : ∀ part ∈ parts, Starts part.body) (rest : List Char) :
    anotherItem true (Value.separated Padded.text parts ++ (inside.chars ++ ']' :: rest)) =
      anotherItem false (remainder {} parts inside ']' rest) := by
  cases parts with
  | nil => exact (anotherItem_blanks inside _ true).trans (anotherItem_end inside {} rest).symm
  | cons part parts =>
    have hstart := h part List.mem_cons_self
    rw [anotherItem_remainder inside {} hstart]
    obtain ⟨c, cs, hbody, hc, hbracket⟩ := hstart
    rw [separated_append, anotherItem_blanks, hbody]
    exact anotherItem_first hc hbracket _

variable (hparts : List.Forall₂
  (fun part a => Starts part.body ∧ Reads item part.body a (fits a)) parts as)

include hparts

theorem itemsFrom_remainder (last : Blanks) (rest : List Char) (rounds : Nat)
    (hrounds : (remainder last parts inside ']' rest).length ≤ rounds + 1) :
    itemsFrom item (rounds + 1) false (remainder last parts inside ']' rest) =
      if as.all fits then .ok (as, ']' :: rest) else .error .malformed := by
  induction hparts generalizing last rounds with
  | nil =>
    rw [itemsFrom, bind_ok (anotherItem_end inside last rest)]
    rfl
  | @cons part a parts as hpart _ ih =>
    have hpos := length_remainder_pos part.after parts inside ']' rest
    have hlt := length_remainder_lt last part parts inside ']' rest
    obtain ⟨rounds, rfl⟩ := Nat.exists_eq_succ_of_ne_zero (n := rounds) (by omega)
    have hitem := hpart.2 _ (ends_remainder (Or.inl rfl) part.after parts inside rest)
    rw [itemsFrom, bind_ok (anotherItem_remainder inside last hpart.1 rest), if_pos rfl,
      bind_fits hitem, bind_fits (ih part.after rounds (by omega)), List.all_cons]
    cases fits a <;> cases as.all fits <;> rfl

/-- An array is read item by item, with blanks around the items. -/
theorem reads_items :
    Reads (items item) (Value.separated Padded.text parts ++ (inside.chars ++ [']'])) as
      (as.all fits) := by
  intro rest _
  have hstart : ∀ part ∈ parts, Starts part.body := (List.forall₂_and_left _ _ |>.mp hparts).1
  have hread := (bind_eq_of_eq (anotherItem_separated inside hstart rest) _).trans
    (itemsFrom_remainder inside hparts {} rest _ (length_remainder_le parts inside ']' rest))
  simp only [List.append_assoc, List.singleton_append]
  rw [items, bind_ok (get_ok _)]
  exact (bind_fits hread).trans rfl

end Items

section Fields

variable {field : σ → Reader σ} {parts : List (Padded (List Char))} {start final : σ} {fits : Bool}
  (inside : Blanks)

/-- The fields in the parts take the reader from one state to another, or one of them does not
fit. -/
inductive Runs (field : σ → Reader σ) : σ → List (Padded (List Char)) → σ → Bool → Prop
  | nil (state : σ) : Runs field state [] state true
  | cons {part : Padded (List Char)} {parts : List (Padded (List Char))} {start next final : σ}
      {fits : Bool} (hquote : ∃ s, part.body = '"' :: s)
      (htakes : Takes (field start) part.body next) (hrest : Runs field next parts final fits) :
      Runs field start (part :: parts) final fits
  | stop {part : Padded (List Char)} {parts : List (Padded (List Char))} {start next final : σ}
      (hquote : ∃ s, part.body = '"' :: s) (hstops : Reads (field start) part.body next false) :
      Runs field start (part :: parts) final false

theorem anotherField_end (last : Blanks) (rest : List Char) :
    anotherField false (remainder last [] inside '\x7d' rest) = .ok (false, '\x7d' :: rest) := by
  rw [remainder, anotherField_blanks, List.flatMap_nil, List.nil_append, anotherField_blanks]
  rfl

theorem anotherField_remainder (last : Blanks) {part : Padded (List Char)}
    (h : ∃ s, part.body = '"' :: s) (rest : List Char) :
    anotherField false (remainder last (part :: parts) inside '\x7d' rest) =
      .ok (true, part.body ++ remainder part.after parts inside '\x7d' rest) := by
  obtain ⟨s, hbody⟩ := h
  rw [remainder_cons, anotherField_blanks, hbody]
  exact anotherField_comma_blanks part.before _

variable (hruns : Runs field start parts final fits)

include hruns

/-- The first field is found as if there were a comma before it. -/
theorem anotherField_separated (rest : List Char) :
    anotherField true (Value.separated Padded.text parts ++ (inside.chars ++ '\x7d' :: rest)) =
      anotherField false (remainder {} parts inside '\x7d' rest) := by
  cases hruns with
  | nil => exact (anotherField_blanks inside _ true).trans (anotherField_end inside {} rest).symm
  | cons hquote | stop hquote =>
    rw [anotherField_remainder inside {} hquote, separated_append, anotherField_blanks]
    obtain ⟨s, hbody⟩ := hquote
    rw [hbody]
    rfl

theorem fieldsFrom_remainder (last : Blanks) (rest : List Char) (rounds : Nat)
    (hrounds : (remainder last parts inside '\x7d' rest).length ≤ rounds + 1) :
    fieldsFrom field (rounds + 1) false start (remainder last parts inside '\x7d' rest) =
      if fits then .ok (final, '\x7d' :: rest) else .error .malformed := by
  induction hruns generalizing last rounds with
  | nil state =>
    rw [fieldsFrom, bind_ok (anotherField_end inside last rest)]
    rfl
  | @cons part parts start next final fits hquote htakes _ ih =>
    have hpos := length_remainder_pos part.after parts inside '\x7d' rest
    have hlt := length_remainder_lt last part parts inside '\x7d' rest
    obtain ⟨rounds, rfl⟩ := Nat.exists_eq_succ_of_ne_zero (n := rounds) (by omega)
    rw [fieldsFrom, bind_ok (anotherField_remainder inside last hquote rest), if_pos rfl,
      bind_ok (htakes _ (ends_remainder (Or.inr rfl) part.after parts inside rest)),
      ih part.after rounds (by omega)]
  | @stop part parts start next final hquote hstops =>
    rw [fieldsFrom, bind_ok (anotherField_remainder inside last hquote rest), if_pos rfl,
      bind_error (hstops _ (ends_remainder (Or.inr rfl) part.after parts inside rest))]
    rfl

/-- An object is read field by field, with blanks around the fields. -/
theorem reads_fields :
    Reads (fields field start) (Value.separated Padded.text parts ++ (inside.chars ++ ['\x7d']))
      final fits := by
  intro rest _
  have hread := (bind_eq_of_eq (anotherField_separated inside hruns rest) _).trans
    (fieldsFrom_remainder inside hruns {} rest _ (length_remainder_le parts inside '\x7d' rest))
  simp only [List.append_assoc, List.singleton_append]
  rw [fields, bind_ok (get_ok _)]
  exact (bind_fits hread).trans rfl

end Fields

section Named

variable {name : Padded Literal} {key : String} {before after : Blanks} {text : List Char}

theorem fieldName_fieldPart (hname : name.body.string? = some key) (rest : List Char) :
    fieldName ((Spelling.fieldPart name before text after).body ++ rest) =
      .ok (key, name.after.chars ++ ':' :: (before.chars ++ text ++ rest)) := by
  simp only [Spelling.fieldPart, List.append_assoc, List.cons_append]
  exact fieldName_text hname _

theorem fieldPart_quote : ∃ s, (Spelling.fieldPart name before text after).body = '"' :: s :=
  ⟨_, rfl⟩

theorem reads_valueField {reader : Reader Value} {v : Value} {fits : Bool}
    (hname : name.body.string? = some key) (h : Reads reader (before.chars ++ text) v fits)
    (found : List (String × Value)) :
    Reads (valueField reader found) (Spelling.fieldPart name before text after).body
      ((key, v) :: found) fits := by
  intro rest hrest
  rw [valueField, bind_ok (fieldName_fieldPart hname rest), bind_ok (colon_blanks _ _),
    bind_fits (h rest hrest)]
  rfl

/-- A field is passed over even if its name is not a string. -/
theorem takes_skipField {reader : Reader Unit} (h : Takes reader (before.chars ++ text) ()) :
    Takes (skipField reader ()) (Spelling.fieldPart name before text after).body () := by
  intro rest hrest
  have hopen : (Spelling.fieldPart name before text after).body ++ rest =
      '"' :: (name.body.flatMap Piece.text ++
        '"' :: (name.after.chars ++ ':' :: (before.chars ++ text ++ rest))) := by
    simp [Spelling.fieldPart, Literal.text]
  rw [hopen, skipField, bind_ok (advance_cons _ _), bind_ok (skipStringBody_pieces _ _),
    bind_ok (colon_blanks _ _), h rest hrest]

end Named

/-- No other value starts like a numeral. -/
theorem numeral_start {c : Char} (hc : c = '-' ∨ c.isDigit = true) :
    isBlank c = false ∧ c ≠ 'n' ∧ c ≠ 't' ∧ c ≠ 'f' ∧ c ≠ '"' ∧ c ≠ '[' ∧ c ≠ ']' ∧ c ≠ '\x7b' := by
  have hne (d : Char) (hd : ¬(d = '-' ∨ d.isDigit = true)) : c ≠ d := by
    rintro rfl
    exact hd hc
  have hblank : isBlank c = false := by
    simp [isBlank, hne ' ' (by decide), hne '\n' (by decide), hne '\t' (by decide),
      hne '\r' (by decide)]
  exact ⟨hblank, hne 'n' (by decide), hne 't' (by decide), hne 'f' (by decide),
    hne '"' (by decide), hne '[' (by decide), hne ']' (by decide), hne '\x7b' (by decide)⟩

theorem starts_text (s : Spelling) : Starts s.text := by
  cases s with
  | null => exact ⟨'n', "ull".toList, rfl, rfl, by decide⟩
  | bool b =>
    cases b with
    | true => exact ⟨'t', "rue".toList, rfl, rfl, by decide⟩
    | false => exact ⟨'f', "alse".toList, rfl, rfl, by decide⟩
  | number n =>
    obtain ⟨c, cs, htext, hc⟩ := numberText_start n
    obtain ⟨hblank, -, -, -, -, -, hbracket, -⟩ := numeral_start hc
    exact ⟨c, cs, htext, hblank, hbracket⟩
  | string l => exact ⟨'"', _, rfl, rfl, by decide⟩
  | array items inside => exact ⟨'[', _, rfl, rfl, by decide⟩
  | object fields inside => exact ⟨'\x7b', _, rfl, rfl, by decide⟩

section Values

variable (inner : Option (Reader Value))

theorem takes_null : Takes (valueWith inner) Spelling.null.text .null := fun _ _ => rfl

theorem takes_bool (b : Bool) : Takes (valueWith inner) (Spelling.bool b).text (.bool b) := by
  intro rest _
  cases b with
  | false =>
    change valueWith inner ('f' :: 'a' :: 'l' :: 's' :: 'e' :: rest) = _
    rfl
  | true =>
    change valueWith inner ('t' :: 'r' :: 'u' :: 'e' :: rest) = _
    rfl

theorem takes_number {n : NumberText} {number : Number} (h : n.numeral.toNumber? = some number) :
    Takes (valueWith inner) (Spelling.number n).text (.number number) := by
  intro rest hrest
  have hread : Reader.number (n.text ++ rest) = .ok (number, rest) := by
    refine (bind_ok (numeral_text n hrest)).trans ?_
    simp only [h]
    rfl
  obtain ⟨c, cs, htext, hc⟩ := numberText_start n
  obtain ⟨hblank, hn, ht, hf, hquote, hbracket, -, hbrace⟩ := numeral_start hc
  rw [htext] at hread
  rw [Spelling.text_number, htext]
  cases inner with
  | none =>
    refine (bind_ok (peek?_cons hblank _)).trans ?_
    simp only [hc, if_true]
    exact (bind_ok hread).trans rfl
  | some inner =>
    refine (bind_ok (peek?_cons hblank _)).trans ?_
    simp only [hc, if_true]
    exact (bind_ok hread).trans rfl

theorem valueWith_quote (rest : List Char) :
    valueWith inner ('"' :: rest) = (stringBody >>= fun s => pure (.string s)) rest := rfl

theorem takes_string {l : Literal} {s : String} (h : l.string? = some s) :
    Takes (valueWith inner) (Spelling.string l).text (.string s) := by
  intro rest _
  rw [Spelling.text_string, Literal.text, List.cons_append, List.append_assoc, valueWith_quote,
    List.singleton_append, bind_ok (stringBody_pieces h rest)]
  rfl

theorem valueWith_bracket (inner : Reader Value) (s : List Char) :
    valueWith (some inner) ('[' :: s) = (items inner >>= fun vs => pure (.array vs)) s := rfl

theorem valueWith_brace (inner : Reader Value) (s : List Char) :
    valueWith (some inner) ('\x7b' :: s) =
      (fields (valueField inner) [] >>= fun fs => pure (.object fs.reverse)) s := rfl

theorem reads_array {inner : Reader Value} {fits : Value → Bool} {items : List (Padded Spelling)}
    {inside : Blanks} {vs : List Value}
    (h : List.Forall₂ (fun part v => Starts part.body ∧ Reads inner part.body v (fits v))
      (Spelling.itemParts items) vs) :
    Reads (valueWith (some inner)) (Spelling.array items inside).text (.array vs)
      (vs.all fits) := by
  intro rest hrest
  rw [Spelling.text_array, enclosed, List.cons_append, valueWith_bracket,
    bind_fits (reads_items inside h rest hrest)]
  rfl

theorem reads_object {inner : Reader Value} {fits : Bool}
    {fields : List (Padded Literal × Padded Spelling)} {inside : Blanks}
    {vs : List (String × Value)}
    (h : Runs (valueField inner) [] (Spelling.fieldParts fields) vs.reverse fits) :
    Reads (valueWith (some inner)) (Spelling.object fields inside).text (.object vs) fits := by
  intro rest hrest
  rw [Spelling.text_object, enclosed, List.cons_append, valueWith_brace,
    bind_fits (reads_fields inside h rest hrest), List.reverse_reverse]
  rfl

theorem exists_value_eq (depth : Nat) : ∃ inner, value depth = valueWith inner := by
  cases depth with
  | zero => exact ⟨none, rfl⟩
  | succ depth => exact ⟨some (value depth), rfl⟩

/-- Nothing is open in a scalar, so that it is read at every depth. -/
theorem reads_scalar {s : Spelling} {v : Value} (hscalar : s.nesting = 0) (h : s.value? = some v)
    (depth : Nat) : Reads (value depth) s.text v (v.nesting ≤ depth) := by
  have hfits : v.nesting ≤ depth := by
    rw [Spelling.nesting_of_value? s v h, hscalar]
    exact Nat.zero_le depth
  obtain ⟨inner, hinner⟩ := exists_value_eq depth
  rw [decide_eq_true hfits, hinner]
  cases s with
  | null =>
    cases h
    exact takes_null inner
  | bool b =>
    cases h
    exact takes_bool inner b
  | number n =>
    obtain ⟨number, hnumber, rfl⟩ := Option.map_eq_some_iff.mp h
    exact takes_number inner hnumber
  | string l =>
    obtain ⟨s, hs, rfl⟩ := Option.map_eq_some_iff.mp h
    exact takes_string inner hs
  | array items inside => cases hscalar
  | object fields inside => cases hscalar

end Values

mutual

/-- A spelling is read as its value if it is not nested too deep. -/
theorem reads_value : (s : Spelling) → (v : Value) → s.value? = some v → (depth : Nat) →
    Reads (value depth) s.text v (v.nesting ≤ depth)
  | .null, _, h, depth => reads_scalar rfl h depth
  | .bool _, _, h, depth => reads_scalar rfl h depth
  | .number _, _, h, depth => reads_scalar rfl h depth
  | .string _, _, h, depth => reads_scalar rfl h depth
  | .array items inside, v, h, 0 => by
    obtain ⟨vs, -, rfl⟩ := Option.map_eq_some_iff.mp h
    exact fun _ _ => rfl
  | .array items inside, v, h, depth + 1 => by
    obtain ⟨vs, hvs, rfl⟩ := Option.map_eq_some_iff.mp h
    have hfits : (vs.all fun v => v.nesting ≤ depth) =
        decide ((Value.array vs).nesting ≤ depth + 1) := by
      rw [Value.nesting, Bool.eq_iff_iff]
      simp [Value.nestingItems_le_iff]
    rw [← hfits]
    exact reads_array (reads_itemValues items vs hvs depth)
  | .object fields inside, v, h, 0 => by
    obtain ⟨vs, -, rfl⟩ := Option.map_eq_some_iff.mp h
    exact fun _ _ => rfl
  | .object fields inside, v, h, depth + 1 => by
    obtain ⟨vs, hvs, rfl⟩ := Option.map_eq_some_iff.mp h
    have hruns := runs_fieldValues fields vs hvs depth []
    rw [List.append_nil] at hruns
    have hfits : decide (Value.nestingFields vs ≤ depth) =
        decide ((Value.object vs).nesting ≤ depth + 1) := by
      simp [Value.nesting]
    rw [← hfits]
    exact reads_object hruns

theorem reads_itemValues : (items : List (Padded Spelling)) → (vs : List Value) →
    Spelling.itemValues? items = some vs → (depth : Nat) →
    List.Forall₂
      (fun part v => Starts part.body ∧ Reads (value depth) part.body v (v.nesting ≤ depth))
      (Spelling.itemParts items) vs
  | [], vs, h, _ => by
    cases h
    exact .nil
  | ⟨before, item, after⟩ :: items, vs, h, depth => by
    rw [Spelling.itemValues?] at h
    split at h
    · next v vs hv hvs =>
      cases h
      exact .cons ⟨starts_text item, reads_value item v hv depth⟩
        (reads_itemValues items vs hvs depth)
    · cases h

theorem runs_fieldValues : (fields : List (Padded Literal × Padded Spelling)) →
    (vs : List (String × Value)) → Spelling.fieldValues? fields = some vs → (depth : Nat) →
    (found : List (String × Value)) →
    Runs (valueField (value depth)) found (Spelling.fieldParts fields) (vs.reverse ++ found)
      (Value.nestingFields vs ≤ depth)
  | [], vs, h, _, found => by
    cases h
    exact .nil found
  | (name, ⟨before, body, after⟩) :: fields, vs, h, depth, found => by
    rw [Spelling.fieldValues?] at h
    split at h
    · next key v vs hkey hv hvs =>
      cases h
      have hfield : Reads (valueField (value depth) found)
          (Spelling.fieldPart name before body.text after).body ((key, v) :: found)
          (v.nesting ≤ depth) :=
        reads_valueField hkey
          ((reads_value body v hv depth).blanks (passesBlanks_value depth) before) found
      by_cases hfits : v.nesting ≤ depth
      · have hrest := runs_fieldValues fields vs hvs depth ((key, v) :: found)
        rw [decide_eq_true hfits] at hfield
        rw [List.reverse_cons, List.append_assoc, List.singleton_append]
        simp only [Value.nestingFields, Nat.max_le, hfits, true_and]
        exact .cons fieldPart_quote hfield hrest
      · rw [decide_eq_false hfits] at hfield
        simp only [Value.nestingFields, Nat.max_le, hfits, false_and, decide_false]
        exact .stop fieldPart_quote hfield
    · cases h

end

theorem takes_value {s : Spelling} {v : Value} (h : s.value? = some v) {depth : Nat}
    (hdepth : s.nesting ≤ depth) : Takes (value depth) s.text v := by
  have hreads := reads_value s v h depth
  rwa [Spelling.nesting_of_value? s v h, decide_eq_true hdepth] at hreads

section Skipping

variable {inner : Reader Unit} {items : List (Padded Spelling)}
  {fields : List (Padded Literal × Padded Spelling)} {inside : Blanks}

theorem takes_skipWith_scalar (inner : Reader Unit) {s : Spelling} (h : s.nesting = 0) :
    Takes (skipWith inner) s.text () := by
  intro rest hrest
  cases s with
  | null => rfl
  | bool b =>
    cases b with
    | false =>
      change skipWith inner ('f' :: 'a' :: 'l' :: 's' :: 'e' :: rest) = _
      rfl
    | true =>
      change skipWith inner ('t' :: 'r' :: 'u' :: 'e' :: rest) = _
      rfl
  | number n =>
    have hread : skipNumber (n.text ++ rest) = .ok ((), rest) := by
      rw [skipNumber, numeral_text n hrest]
    obtain ⟨c, cs, htext, hc⟩ := numberText_start n
    obtain ⟨hblank, hn, ht, hf, hquote, hbracket, -, hbrace⟩ := numeral_start hc
    rw [htext] at hread
    rw [Spelling.text_number, htext]
    refine (bind_ok (peek?_cons hblank _)).trans ?_
    simp only [hc, if_true]
    exact hread
  | string l =>
    have hopen : (Spelling.string l).text ++ rest =
        '"' :: (l.flatMap Piece.text ++ '"' :: rest) := by
      simp [Spelling.text_string, Literal.text]
    rw [hopen]
    exact skipStringBody_pieces l rest
  | array items inside => cases h
  | object fields inside => cases h

theorem skipWith_bracket (inner : Reader Unit) (s : List Char) :
    skipWith inner ('[' :: s) = (Reader.items inner >>= fun _ => pure ()) s := rfl

theorem takes_skipWith_array
    (h : List.Forall₂ (fun part a => Starts part.body ∧ Takes inner part.body a)
      (Spelling.itemParts items) (items.map fun _ => ())) :
    Takes (skipWith inner) (Spelling.array items inside).text () := by
  intro rest hrest
  have hitems := reads_items inside h rest hrest
  rw [List.all_eq_true.mpr fun _ _ => rfl] at hitems
  rw [Spelling.text_array, enclosed, List.cons_append, skipWith_bracket, bind_ok hitems]
  rfl

theorem takes_skipWith_object (h : Runs (skipField inner) () (Spelling.fieldParts fields) () true) :
    Takes (skipWith inner) (Spelling.object fields inside).text () := by
  intro rest hrest
  rw [Spelling.text_object, enclosed]
  exact reads_fields inside h rest hrest

theorem passesBlanks_skipNested (depth : Nat) : PassesBlanks (skipNested (depth + 1)) :=
  fun b s => bind_peek?_blanks b s _

/-- What stands in brackets is shorter than the whole. -/
theorem length_body_lt_enclosed {parts : List (Padded (List Char))} {part : Padded (List Char)}
    (hpart : part ∈ parts) (opening closing : Char) (inside : Blanks) :
    part.body.length < (enclosed opening closing parts inside).length := by
  have hbody : part.body.length ≤ part.text.length := by
    rw [Padded.text, List.length_append, List.length_append]
    omega
  have htext : part.text.length ≤ (Value.separated Padded.text parts).length := by
    cases parts with
    | nil => cases hpart
    | cons first parts =>
      rw [Value.separated, List.length_append]
      rcases List.mem_cons.mp hpart with rfl | hpart
      · exact Nat.le_add_right _ _
      · have hlater := (List.sublist_flatten_of_mem
          (List.mem_map_of_mem (f := fun next => ',' :: Padded.text next) hpart)).length_le
        rw [← List.flatMap_def, List.length_cons] at hlater
        omega
  rw [enclosed, List.length_cons, List.length_append]
  omega

end Skipping

mutual

/-- Any spelling is passed over, with a value or without, since it is not nested deeper than it is
long. -/
theorem takes_skipNested : (s : Spelling) → (depth : Nat) → s.text.length < depth →
    Takes (skipNested depth) s.text ()
  | _, 0, hdepth => absurd hdepth (Nat.not_lt_zero _)
  | .null, _ + 1, _ => takes_skipWith_scalar _ rfl
  | .bool _, _ + 1, _ => takes_skipWith_scalar _ rfl
  | .number _, _ + 1, _ => takes_skipWith_scalar _ rfl
  | .string _, _ + 1, _ => takes_skipWith_scalar _ rfl
  | .array items inside, depth + 1, hdepth =>
    takes_skipWith_array (takes_skipItems items depth fun _ hpart =>
      Nat.lt_of_lt_of_le (length_body_lt_enclosed hpart _ _ inside) (Nat.le_of_lt_succ hdepth))
  | .object fields inside, depth + 1, hdepth =>
    takes_skipWith_object (runs_skipFields fields depth fun _ hpart =>
      Nat.lt_of_lt_of_le (length_body_lt_enclosed hpart _ _ inside) (Nat.le_of_lt_succ hdepth))

theorem takes_skipItems : (items : List (Padded Spelling)) → (depth : Nat) →
    (∀ part ∈ Spelling.itemParts items, part.body.length < depth) →
    List.Forall₂ (fun part a => Starts part.body ∧ Takes (skipNested depth) part.body a)
      (Spelling.itemParts items) (items.map fun _ => ())
  | [], _, _ => .nil
  | ⟨_, item, _⟩ :: items, depth, h => by
    rw [Spelling.itemParts, List.forall_mem_cons] at h
    exact .cons ⟨starts_text item, takes_skipNested item depth h.1⟩
      (takes_skipItems items depth h.2)

theorem runs_skipFields : (fields : List (Padded Literal × Padded Spelling)) → (depth : Nat) →
    (∀ part ∈ Spelling.fieldParts fields, part.body.length < depth) →
    Runs (skipField (skipNested depth)) () (Spelling.fieldParts fields) () true
  | [], _, _ => .nil ()
  | (name, ⟨before, value, after⟩) :: fields, depth, h => by
    rw [Spelling.fieldParts, List.forall_mem_cons] at h
    have hlength : value.text.length < depth := by
      refine Nat.lt_of_le_of_lt ?_ h.1
      simp only [Spelling.fieldPart, List.length_append, List.length_cons]
      omega
    obtain ⟨depth, rfl⟩ := Nat.exists_eq_succ_of_ne_zero (Nat.ne_of_gt (Nat.zero_lt_of_lt hlength))
    have hvalue := takes_skipNested value (depth + 1) hlength
    exact .cons fieldPart_quote
      (takes_skipField (hvalue.blanks (passesBlanks_skipNested depth) before))
      (runs_skipFields fields (depth + 1) h.2)

end

/-- Any spelling is passed over, with the blanks before it. -/
theorem takes_skip (s : Spelling) (before : Blanks) : Takes skip (before.chars ++ s.text) () := by
  intro rest hrest
  have hlength : s.text.length < (before.chars ++ s.text ++ rest).length + 1 := by
    simp only [List.length_append]
    omega
  rw [skip, bind_ok (get_ok _)]
  exact (takes_skipNested s _ hlength).blanks (passesBlanks_skipNested _) before rest hrest

end ConditionalStyles.Json.Reader
