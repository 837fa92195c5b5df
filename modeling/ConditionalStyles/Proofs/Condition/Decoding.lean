import ConditionalStyles.Proofs.Condition.Encoding
import Mathlib.Data.List.Forall2

/-!
What decoding keeps of a JSON value. Of every object that is read as an operator one field is kept,
and all other fields are left out, whatever they hold. So a condition is encoded as the value that
it was decoded from exactly when every object of the value has a single field.
-/
namespace ConditionalStyles

namespace Json.Value

mutual

/-- Every object has exactly one field. -/
def SingleKeyed : Value → Prop
  | null => True
  | bool _ => True
  | number _ => True
  | string _ => True
  | array items => SingleKeyedItems items
  | object fields => fields.length = 1 ∧ SingleKeyedFields fields

def SingleKeyedItems : List Value → Prop
  | [] => True
  | item :: rest => SingleKeyed item ∧ SingleKeyedItems rest

def SingleKeyedFields : List (String × Value) → Prop
  | [] => True
  | (_, value) :: rest => SingleKeyed value ∧ SingleKeyedFields rest

end

/-- The value of a name that occurs once. -/
def onlyAt? (name : String) (fields : List (String × Value)) : Option Value :=
  match fields.filter fun field => field.1 == name with
  | [field] => some field.2
  | _ => none

theorem onlyAt?_cons_self (name : String) (value : Value) (rest : List (String × Value)) :
    onlyAt? name ((name, value) :: rest) =
      if rest.any (fun field => field.1 == name) then none else some value := by
  rw [onlyAt?, List.filter_cons_of_pos (by simp)]
  cases hrest : rest.filter fun field => field.1 == name with
  | nil =>
    have hany : rest.any (fun field => field.1 == name) = false := by
      rw [List.filter_eq_nil_iff] at hrest
      simpa using hrest
    rw [hany, if_neg (by decide)]
  | cons field others =>
    have hmem : field ∈ rest.filter fun field => field.1 == name := by
      rw [hrest]
      exact List.mem_cons_self
    rw [if_pos (List.any_eq_true.mpr ⟨field, List.mem_filter.mp hmem⟩)]

theorem onlyAt?_cons_of_ne {name : String} {field : String × Value} (h : field.1 ≠ name)
    (rest : List (String × Value)) : onlyAt? name (field :: rest) = onlyAt? name rest := by
  rw [onlyAt?, onlyAt?, List.filter_cons_of_neg (by simpa using h)]

theorem mem_of_onlyAt? {name : String} {fields : List (String × Value)} {value : Value}
    (h : onlyAt? name fields = some value) : (name, value) ∈ fields := by
  rw [onlyAt?] at h
  split at h
  · next field hfield =>
    have hmem : field ∈ fields.filter fun field => field.1 == name := by
      rw [hfield]
      exact List.mem_singleton_self field
    obtain ⟨hin, hname⟩ := List.mem_filter.mp hmem
    have heq : field = (name, value) := Prod.ext (by simpa using hname) (Option.some_inj.mp h)
    exact heq ▸ hin
  · cases h

/-- What is left of a value when every object keeps a single field, one whose name occurs once. -/
inductive Keeps : Value → Value → Prop
  | string (s : String) : Keeps (string s) (string s)
  | array {items kept : List Value} (h : List.Forall₂ Keeps items kept) :
      Keeps (array items) (array kept)
  | object {fields : List (String × Value)} {name : String} {value kept : Value}
      (honly : onlyAt? name fields = some value) (h : Keeps value kept) :
      Keeps (object fields) (object [(name, kept)])

/-- An object that keeps its fields has one field, and the value in it keeps its fields too. -/
theorem object_eq_iff {fields : List (String × Value)} {name : String} {value kept : Value}
    (honly : onlyAt? name fields = some value) (h : kept = value ↔ value.SingleKeyed) :
    object [(name, kept)] = object fields ↔ (object fields).SingleKeyed := by
  have hmem := mem_of_onlyAt? honly
  constructor
  · intro heq
    injection heq with hfields
    subst hfields
    have hvalue : value = kept := by simpa using hmem
    exact ⟨rfl, by rw [← hvalue]; exact h.mp hvalue.symm, trivial⟩
  · rintro ⟨hlength, hsingle⟩
    obtain ⟨field, rfl⟩ := List.length_eq_one_iff.mp hlength
    obtain rfl := List.mem_singleton.mp hmem
    rw [h.mpr hsingle.1]

theorem array_eq_iff {items kept : List Value}
    (h : List.Forall₂ (fun item kept => kept = item ↔ item.SingleKeyed) items kept) :
    array kept = array items ↔ (array items).SingleKeyed := by
  have hitems : kept = items ↔ SingleKeyedItems items := by
    induction h with
    | nil => simp [SingleKeyedItems]
    | cons hhead _ ih => rw [List.cons.injEq, hhead, ih, SingleKeyedItems]
  rw [array.injEq, hitems, SingleKeyed]

end Json.Value

open Json Json.Value

namespace Condition

variable {α : Type} {atom? : Value → Option α} {atomJson : α → Value}

theorem operandsAt?_eq_bind (name : String) (fields : List (String × Value)) :
    operandsAt? atom? name fields = (onlyAt? name fields).bind (operands? atom?) := by
  induction fields with
  | nil => rfl
  | cons field rest ih =>
    obtain ⟨key, value⟩ := field
    rw [operandsAt?]
    by_cases hkey : key = name
    · rw [if_pos hkey, hkey, onlyAt?_cons_self]
      split <;> rfl
    · rw [if_neg hkey, onlyAt?_cons_of_ne hkey, ih]

theorem operandAt?_eq_bind (name : String) (fields : List (String × Value)) :
    operandAt? atom? name fields = (onlyAt? name fields).bind (ofJson? atom?) := by
  induction fields with
  | nil => rfl
  | cons field rest ih =>
    obtain ⟨key, value⟩ := field
    rw [operandAt?]
    by_cases hkey : key = name
    · rw [if_pos hkey, hkey, onlyAt?_cons_self]
      split <;> rfl
    · rw [if_neg hkey, onlyAt?_cons_of_ne hkey, ih]

theorem forall₂_of_ofJsonList? {items : List Value} {cs : List (Condition α)}
    (h : ofJsonList? atom? items = some cs) :
    List.Forall₂ (fun item c => ofJson? atom? item = some c) items cs := by
  induction items generalizing cs with
  | nil =>
    rw [ofJsonList?] at h
    cases h
    exact .nil
  | cons item rest ih =>
    rw [ofJsonList?] at h
    split at h
    · next c cs hitem hrest =>
      cases h
      exact .cons hitem (ih hrest)
    · cases h

/-- The operands that are read from the only field of a name. -/
theorem exists_items_of_operandsAt? {name : String} {fields : List (String × Value)}
    {cs : List (Condition α)} (h : operandsAt? atom? name fields = some cs) :
    ∃ items, onlyAt? name fields = some (.array items) ∧
      List.Forall₂ (fun item c => ofJson? atom? item = some c) items cs := by
  rw [operandsAt?_eq_bind] at h
  obtain ⟨value, honly, hvalue⟩ := Option.bind_eq_some_iff.mp h
  cases value with
  | array items =>
    rw [operands?] at hvalue
    exact ⟨items, honly, forall₂_of_ofJsonList? hvalue⟩
  | _ => cases hvalue

/-- A value is decoded as a compound, as a negation or as an atom. -/
theorem ofJson?_cases {v : Value} {c : Condition α} (h : ofJson? atom? v = some c) :
    (∃ fields k items cs, v = .object fields ∧ c = connect k cs ∧
      onlyAt? k.fieldName fields = some (.array items) ∧
      List.Forall₂ (fun item c => ofJson? atom? item = some c) items cs) ∨
    (∃ fields value d, v = .object fields ∧ c = not d ∧
      onlyAt? "not" fields = some value ∧ ofJson? atom? value = some d) ∨
    ∃ a, c = atom a ∧ atom? v = some a := by
  cases v with
  | object fields =>
    simp only [ofJson?, Option.orElse_eq_orElse, Option.orElse_eq_or, Option.or_eq_some_iff,
      Option.map_eq_some_iff] at h
    rcases h with ⟨cs, hcs, rfl⟩ | ⟨-, ⟨cs, hcs, rfl⟩ | ⟨-, ⟨d, hd, rfl⟩ | ⟨-, a, ha, rfl⟩⟩⟩
    · obtain ⟨items, honly, hitems⟩ := exists_items_of_operandsAt? hcs
      exact Or.inl ⟨fields, .all, items, cs, rfl, rfl, honly, hitems⟩
    · obtain ⟨items, honly, hitems⟩ := exists_items_of_operandsAt? hcs
      exact Or.inl ⟨fields, .any, items, cs, rfl, rfl, honly, hitems⟩
    · rw [operandAt?_eq_bind] at hd
      obtain ⟨value, honly, hvalue⟩ := Option.bind_eq_some_iff.mp hd
      exact Or.inr (Or.inl ⟨fields, value, d, rfl, rfl, honly, hvalue⟩)
    · exact Or.inr (Or.inr ⟨a, rfl, ha⟩)
  | _ =>
    rw [ofJson?] at h
    obtain ⟨a, ha, rfl⟩ := Option.map_eq_some_iff.mp h
    exact Or.inr (Or.inr ⟨a, rfl, ha⟩)

/-- Atoms are strings, and an atom is encoded as the string that it was decoded from. -/
def Spells (atomJson : α → Value) (atom? : Value → Option α) : Prop :=
  ∀ v a, atom? v = some a → ∃ s, v = .string s ∧ atomJson a = v

mutual

/-- Decoding keeps one field of every object, and loses nothing where there is no other one. -/
theorem keeps_of_ofJson? (hspells : Spells atomJson atom?) :
    (c : Condition α) → {v : Value} → ofJson? atom? v = some c →
      v.Keeps (c.toJson atomJson) ∧ (c.toJson atomJson = v ↔ v.SingleKeyed)
  | atom a, v, h => by
    rcases ofJson?_cases h with ⟨_, _, _, _, _, hc, _⟩ | ⟨_, _, _, _, hc, _⟩ | ⟨b, hc, hb⟩
    · cases hc
    · cases hc
    · cases hc
      obtain ⟨s, rfl, hs⟩ := hspells v a hb
      rw [toJson, hs]
      exact ⟨.string s, by simp [SingleKeyed]⟩
  | not c, v, h => by
    rcases ofJson?_cases h with ⟨_, _, _, _, _, hc, _⟩ | ⟨fields, value, d, rfl, hc, honly, hd⟩ |
      ⟨b, hc, _⟩
    · cases hc
    · cases hc
      obtain ⟨hkeeps, heq⟩ := keeps_of_ofJson? hspells c hd
      rw [toJson]
      exact ⟨.object honly hkeeps, object_eq_iff honly heq⟩
    · cases hc
  | connect k cs, v, h => by
    rcases ofJson?_cases h with ⟨fields, l, items, ds, rfl, hc, honly, hds⟩ | ⟨_, _, _, _, hc, _⟩ |
      ⟨b, hc, _⟩
    · cases hc
      have hitems := forall₂_keeps_of_ofJson? hspells cs hds
      rw [toJson]
      exact ⟨.object honly (.array (hitems.imp fun _ _ hitem => hitem.1)),
        object_eq_iff honly (array_eq_iff (hitems.imp fun _ _ hitem => hitem.2))⟩
    · cases hc
    · cases hc

theorem forall₂_keeps_of_ofJson? (hspells : Spells atomJson atom?) :
    (cs : List (Condition α)) → {items : List Value} →
      List.Forall₂ (fun item c => ofJson? atom? item = some c) items cs →
      List.Forall₂ (fun item kept => item.Keeps kept ∧ (kept = item ↔ item.SingleKeyed)) items
        (toJsonList atomJson cs)
  | [], _, .nil => .nil
  | c :: cs, _, .cons hitem hitems =>
    .cons (keeps_of_ofJson? hspells c hitem) (forall₂_keeps_of_ofJson? hspells cs hitems)

end

theorem exists_value_of_read {text : String} {c : Condition α} (h : read atom? text = .ok c) :
    ∃ v, Json.read text = .ok v ∧ ofJson? atom? v = some c := by
  unfold read Reader.run reader at h
  unfold Json.read Reader.run
  cases hvalue : Reader.value depthLimit text.toList with
  | error fault =>
    rw [Reader.bind_error hvalue] at h
    cases h
  | ok result =>
    obtain ⟨v, rest⟩ := result
    rw [Reader.bind_ok hvalue] at h
    cases hdecoded : ofJson? atom? v with
    | none =>
      rw [hdecoded] at h
      cases h
    | some d =>
      rw [hdecoded] at h
      change (if (rest.dropWhile Reader.isBlank).isEmpty then Except.ok d else _) = _ at h
      split at h
      · next hblank =>
        cases h
        exact ⟨v, if_pos hblank, hdecoded⟩
      · cases h

/-- A decoded condition is what one field of every object of the text says; the other fields are
left out. It is encoded as the value of the text exactly when every object has one field. -/
theorem decoding_keeps_one_field (text : String) :
    (∀ c : Condition String, read Value.string? text = .ok c →
      ∃ v, Json.read text = .ok v ∧ v.Keeps (c.toJson .string) ∧
        (c.toJson .string = v ↔ v.SingleKeyed)) ∧
    ∀ c : Condition Scope, read Scope.ofJson? text = .ok c →
      ∃ v, Json.read text = .ok v ∧ v.Keeps (c.toJson Scope.toJson) ∧
        (c.toJson Scope.toJson = v ↔ v.SingleKeyed) := by
  have hstrings : Spells (α := String) .string Value.string? := by
    intro v s h
    cases v with
    | string t =>
      cases h
      exact ⟨s, rfl, rfl⟩
    | _ => cases h
  have hscopes : Spells Scope.toJson Scope.ofJson? := by
    intro v scope h
    cases v with
    | string t => exact ⟨t, rfl, congrArg Value.string (Scope.source_of_ofString? h)⟩
    | _ => cases h
  refine ⟨fun c h => ?_, fun c h => ?_⟩
  · obtain ⟨v, hv, hdecoded⟩ := exists_value_of_read h
    exact ⟨v, hv, keeps_of_ofJson? hstrings c hdecoded⟩
  · obtain ⟨v, hv, hdecoded⟩ := exists_value_of_read h
    exact ⟨v, hv, keeps_of_ofJson? hscopes c hdecoded⟩

/-- A negation whose operand has a note beside its operator: the note is left out. -/
theorem decoding_keeps_negated_operator :
    let v : Value :=
      .object [("not", .object [("note", .null), ("or", .array [.string "&:hover"])])]
    let kept : Value := .object [("not", .object [("or", .array [.string "&:hover"])])]
    read Scope.ofJson? v.compact = .ok (not (any [atom (.selector "&:hover")])) ∧
      v.Keeps kept ∧ (kept = v ↔ v.SingleKeyed) := by
  intro v kept
  have hread : read Scope.ofJson? v.compact = .ok (not (any [atom (.selector "&:hover")])) := by
    decide +kernel
  obtain ⟨w, hw, hkeeps, heq⟩ := (decoding_keeps_one_field v.compact).2 _ hread
  have hv : Json.read v.compact = .ok v := read_compact (by simp [v, Numberless, NumberlessFields,
    NumberlessItems]) (by decide +kernel)
  obtain rfl : v = w := Except.ok.inj (hv.symm.trans hw)
  exact ⟨hread, hkeeps, heq⟩

/-- Of two operators in an object one is dropped, also where the first one of them cannot be
decoded; neither text is rejected, and neither is what the condition is encoded as. -/
theorem decoding_drops_operators :
    let both : Value := .object [("and", .array [.string "a"]), ("or", .array [.string "b"])]
    let broken : Value := .object [("and", .string "a"), ("or", .array [.string "b"])]
    both.compact = "\x7b\"and\":[\"a\"],\"or\":[\"b\"]\x7d" ∧
      broken.compact = "\x7b\"and\":\"a\",\"or\":[\"b\"]\x7d" ∧
      Json.read both.compact = .ok both ∧ Json.read broken.compact = .ok broken ∧
      read Value.string? both.compact = .ok (all [atom "a"]) ∧
      read Value.string? broken.compact = .ok (any [atom "b"]) ∧
      ¬ both.SingleKeyed ∧ (all [atom "a"]).toJson .string ≠ both ∧
      ¬ broken.SingleKeyed ∧ (any [atom "b"]).toJson .string ≠ broken := by
  intro both broken
  have hboth : Json.read both.compact = .ok both := read_compact (by simp [both, Numberless,
    NumberlessFields, NumberlessItems]) (by decide +kernel)
  have hbroken : Json.read broken.compact = .ok broken := read_compact (by simp [broken,
    Numberless, NumberlessFields, NumberlessItems]) (by decide +kernel)
  refine ⟨by decide +kernel, by decide +kernel, hboth, hbroken, by decide +kernel,
    by decide +kernel, ?_, ?_, ?_, ?_⟩
  · simp [both, SingleKeyed]
  · simp [both, toJson]
  · simp [broken, SingleKeyed]
  · simp [broken, toJson]

end Condition

end ConditionalStyles
