import ConditionalStyles.Proofs.Json.Nesting
import ConditionalStyles.Scope

/-!
Conditions read back from their encodings. Every condition whose atoms are spelled as strings and
can be told from these is read back, if the reader allows as many open arrays and objects as its
encoding has; and where it allows fewer, the encoding is malformed. A reader that allows enough for
two conditions tells them apart, so that no two of them have the same encoding.
-/
namespace ConditionalStyles

open Json

namespace Condition

variable {α : Type}

mutual

/-- How many arrays and objects the encoding has open at a time: two for every compound on the way
to an operand, and one for every negation. -/
def nesting : Condition α → Nat
  | atom _ => 0
  | not c => nesting c + 1
  | connect _ cs => nestingList cs + 2

def nestingList : List (Condition α) → Nat
  | [] => 0
  | c :: cs => max (nesting c) (nestingList cs)

end

section Spelling

variable (spell : α → String)

/-- The encoding of a condition whose atoms are spelled as strings. -/
def spelled (c : Condition α) : Value := c.toJson fun a => .string (spell a)

mutual

theorem numberless_spelled : (c : Condition α) → (c.spelled spell).Numberless
  | atom _ => trivial
  | not c => ⟨numberless_spelled c, trivial⟩
  | connect _ cs => ⟨numberless_spelledList cs, trivial⟩

theorem numberless_spelledList : (cs : List (Condition α)) →
    Value.NumberlessItems (toJsonList (fun a => .string (spell a)) cs)
  | [] => trivial
  | c :: cs => ⟨numberless_spelled c, numberless_spelledList cs⟩

end

mutual

theorem nesting_spelled : (c : Condition α) → (c.spelled spell).nesting = c.nesting
  | atom _ => rfl
  | not c => by
    have h := nesting_spelled c
    rw [spelled] at h
    simp [spelled, toJson, Value.nesting, Value.nestingFields, nesting, h]
  | connect _ cs => by
    simp [spelled, toJson, Value.nesting, Value.nestingFields, nesting, nesting_spelledList cs]

theorem nesting_spelledList : (cs : List (Condition α)) →
    Value.nestingItems (toJsonList (fun a => .string (spell a)) cs) = nestingList cs
  | [] => rfl
  | c :: cs => by
    have h := nesting_spelled c
    rw [spelled] at h
    rw [toJsonList, Value.nestingItems, h, nesting_spelledList cs, nestingList]

end

variable {spell} {atom? : Value → Option α}

mutual

theorem ofJson?_spelled : (c : Condition α) →
    (∀ a ∈ c.atoms, atom? (.string (spell a)) = some a) →
      ofJson? atom? (c.spelled spell) = some c
  | atom a, h => by
    rw [spelled, toJson, ofJson?, h a (by simp [atoms])]
    rfl
  | not c, h => by
    have hinner := ofJson?_spelled c h
    rw [spelled] at hinner
    simp [spelled, toJson, ofJson?, operandsAt?, operandAt?, hinner]
  | connect k cs, h => by
    have hinner := ofJsonList?_spelled cs h
    cases k with
    | all => simp [spelled, toJson, ofJson?, operandsAt?, operands?, Connective.fieldName, hinner]
    | any => simp [spelled, toJson, ofJson?, operandsAt?, operands?, Connective.fieldName, hinner]

theorem ofJsonList?_spelled : (cs : List (Condition α)) →
    (∀ a ∈ atomsList cs, atom? (.string (spell a)) = some a) →
      ofJsonList? atom? (toJsonList (fun a => .string (spell a)) cs) = some cs
  | [], _ => by rw [toJsonList, ofJsonList?]
  | c :: cs, h => by
    rw [atomsList, List.forall_mem_append] at h
    have hfirst := ofJson?_spelled c h.1
    rw [spelled] at hfirst
    rw [toJsonList, ofJsonList?, hfirst, ofJsonList?_spelled cs h.2]

end

variable {c d : Condition α}

/-- A condition is read from its encoding by a reader that allows its nesting. -/
theorem reads_spelled (h : ∀ a ∈ c.atoms, atom? (.string (spell a)) = some a) (depth : Nat) :
    (reader atom? depth).Reads (c.spelled spell).compact.toList c (c.nesting ≤ depth) := by
  intro rest hrest
  have hvalue := Reader.reads_compact (numberless_spelled spell c) depth rest hrest
  rw [nesting_spelled] at hvalue
  rw [reader, Reader.bind_fits hvalue, ofJson?_spelled c h]
  rfl

theorem read_spelled (h : ∀ a ∈ c.atoms, atom? (.string (spell a)) = some a) :
    read atom? (c.spelled spell).compact =
      if c.nesting ≤ depthLimit then .ok c else .error .malformed := by
  have hreads := reads_spelled h depthLimit [] Reader.Ends.nil
  rw [List.append_nil] at hreads
  rw [read, Reader.run, hreads]
  by_cases hfits : c.nesting ≤ depthLimit
  · simp [hfits, bind, Except.bind]
  · simp [hfits, bind, Except.bind]

theorem textNesting_spelled (spell : α → String) (c : Condition α) :
    textNesting (c.spelled spell).compact = c.nesting := by
  rw [Value.textNesting_compact (numberless_spelled spell c), nesting_spelled]

/-- Conditions with the same encoding are the same. -/
theorem spelled_injective (hc : ∀ a ∈ c.atoms, atom? (.string (spell a)) = some a)
    (hd : ∀ a ∈ d.atoms, atom? (.string (spell a)) = some a)
    (h : (c.spelled spell).compact = (d.spelled spell).compact) : c = d := by
  -- Both are read by a reader that allows the deeper one of the two.
  have hleft := reads_spelled hc (max c.nesting d.nesting) [] Reader.Ends.nil
  have hright := reads_spelled hd (max c.nesting d.nesting) [] Reader.Ends.nil
  rw [decide_eq_true (Nat.le_max_left _ _), if_pos rfl] at hleft
  rw [decide_eq_true (Nat.le_max_right _ _), if_pos rfl, ← h, hleft] at hright
  injection hright with hpair
  exact congrArg Prod.fst hpair

end Spelling

end Condition

namespace Scope

/-- The scope was made from a text. -/
def Parsed (scope : Scope) : Prop := ∃ s, ofString? s = some scope

theorem source_of_ofString? {s : String} {scope : Scope} (h : ofString? s = some scope) :
    scope.source = s := by
  unfold ofString? at h
  split at h
  · cases h
    rfl
  · split at h
    · cases h
      rfl
    · cases h

/-- A scope that was made from a text is made from its source again. -/
theorem Parsed.ofString?_source {scope : Scope} (h : scope.Parsed) :
    ofString? scope.source = some scope := by
  obtain ⟨s, hs⟩ := h
  rw [source_of_ofString? hs, hs]

end Scope

namespace Condition

theorem encode_injective {c d : Condition String} (h : c.encode .string = d.encode .string) :
    c = d := by
  have hread (c : Condition String) : ∀ a ∈ c.atoms, Value.string? (.string a) = some a :=
    fun _ _ => rfl
  exact spelled_injective (hread c) (hread d) h

theorem ofJson?_of_parsed {c : Condition Scope} (h : ∀ scope ∈ c.atoms, scope.Parsed) :
    ∀ scope ∈ c.atoms, Scope.ofJson? (.string scope.source) = some scope :=
  fun scope hscope => (h scope hscope).ofString?_source

theorem encodeScopes_injective {c d : Condition Scope} (hc : ∀ scope ∈ c.atoms, scope.Parsed)
    (hd : ∀ scope ∈ d.atoms, scope.Parsed) (h : c.encodeScopes = d.encodeScopes) : c = d :=
  spelled_injective (ofJson?_of_parsed hc) (ofJson?_of_parsed hd) h

/-- Encodings are read back if they nest at most 127 deep, and are malformed otherwise: of all
conditions over strings, and of those over scopes that were made from texts. The encoding nests as
the condition does. -/
theorem encoding_is_read_back :
    (∀ c : Condition String,
      textNesting (c.encode .string) = c.nesting ∧
        read Value.string? (c.encode .string) =
          if textNesting (c.encode .string) ≤ 127 then .ok c else .error .malformed) ∧
    ∀ c : Condition Scope, (∀ scope ∈ c.atoms, scope.Parsed) →
      textNesting c.encodeScopes = c.nesting ∧
        read Scope.ofJson? c.encodeScopes =
          if textNesting c.encodeScopes ≤ 127 then .ok c else .error .malformed := by
  refine ⟨fun c => ?_, fun c hparsed => ?_⟩
  · have hnesting : textNesting (c.encode .string) = c.nesting := textNesting_spelled id c
    rw [hnesting]
    exact ⟨rfl, read_spelled fun a _ => rfl⟩
  · have hnesting : textNesting c.encodeScopes = c.nesting := textNesting_spelled Scope.source c
    rw [hnesting]
    exact ⟨rfl, read_spelled (ofJson?_of_parsed hparsed)⟩

/-- A negation below 63 conjunctions is as deep as can be read; one conjunction more is too much. -/
theorem encoding_is_read_back_up_to_limit :
    let deep (n : Nat) : Condition Scope :=
      Nat.repeat (fun c => all [c]) n (not (atom (.selector "&")))
    read Scope.ofJson? (deep 63).encodeScopes = .ok (deep 63) ∧
      read Scope.ofJson? (deep 64).encodeScopes = .error .malformed := by
  intro deep
  have hparsed : ∀ n ∈ [63, 64], ∀ scope ∈ (deep n).atoms, scope.Parsed := by
    intro n hn scope hscope
    have hatoms : ∀ n ∈ [63, 64], (deep n).atoms = [.selector "&"] := by
      decide +kernel
    rw [hatoms n hn, List.mem_singleton] at hscope
    exact ⟨"&", by rw [hscope]; rfl⟩
  have hfits : (deep 63).nesting = 127 := by decide +kernel
  have hdeeper : (deep 64).nesting = 129 := by decide +kernel
  obtain ⟨hnesting, hread⟩ := encoding_is_read_back.2 (deep 63) (hparsed 63 (by decide))
  obtain ⟨hnesting', hread'⟩ := encoding_is_read_back.2 (deep 64) (hparsed 64 (by decide))
  rw [hnesting, hfits] at hread
  rw [hnesting', hdeeper] at hread'
  exact ⟨hread, hread'⟩

end Condition

end ConditionalStyles
