import ConditionalStyles.Proofs.Cascade.Names
import ConditionalStyles.Proofs.Condition.Encoding
import ConditionalStyles.Proofs.Identifier.Numerals

/-!
What the name of a toggle tells. A name that a hook has by default ends with a digit of its digest,
and a numbered name with a decimal digit, so that the path after it can be told off; and the digest
tells the definition up to the word that is written in it.
-/
namespace ConditionalStyles

open Cascade

namespace Cascade

variable {a b : String} {p q : List Char}

theorem below_append (ha : IsPath p) : Below a (a ++ String.ofList p) :=
  ⟨p, ha, by rw [String.toList_append, String.toList_ofList]⟩

/-- A tipped name and the path after it can be told from each other. -/
theorem append_path_inj (ha : Tipped a) (hb : Tipped b) (hp : IsPath p) (hq : IsPath q) :
    a ++ String.ofList p = b ++ String.ofList q ↔ a = b ∧ p = q := by
  constructor
  · intro h
    have hsame : a = b := (below_append hp).unique ha hb (h ▸ below_append hq)
    subst hsame
    refine ⟨rfl, ?_⟩
    have hlist := congrArg String.toList h
    simpa using hlist
  · rintro ⟨rfl, rfl⟩
    rfl

end Cascade

namespace Digest

/-- Digits and lower case letters. -/
def IsDigit36 (c : Char) : Prop := '0' ≤ c ∧ c ≤ '9' ∨ 'a' ≤ c ∧ c ≤ 'z'

instance (c : Char) : Decidable (IsDigit36 c) := inferInstanceAs (Decidable (_ ∨ _))

theorem isDigit36_digit36 : ∀ n < 36, IsDigit36 (digit36 n) := by decide

theorem isDigit36_of_mem {text : String} {c : Char} (h : c ∈ (ofText text).toList) :
    IsDigit36 c := by
  rw [ofText, numeral, String.toList_ofList] at h
  obtain ⟨d, hd, rfl⟩ := mem_digitsFrom h
  exact isDigit36_digit36 d hd

theorem hyphen_not_mem_ofText (text : String) : '-' ∉ (ofText text).toList := by
  intro h
  exact absurd (isDigit36_of_mem h) (by decide)

theorem ofText_ne_nil (text : String) : (ofText text).toList ≠ [] := by
  obtain ⟨start, d, -, hdigits⟩ := digitsFrom_last 6 (value text).toNat
  rw [ofText, numeral, String.toList_ofList, hdigits]
  simp

end Digest

namespace Identifier

theorem ofHook_readable_toList (name : String) (definition : Condition Scope) :
    (ofHook true name definition).toList =
      (clean name).toList ++ '-' :: (Digest.ofText definition.encodeScopes).toList := by
  simp [ofHook]

/-- A name ends with the digest of the definition. -/
theorem exists_ofHook_eq (readable : Bool) (name : String) (definition : Condition Scope) :
    ∃ start, (ofHook readable name definition).toList =
      start ++ (Digest.ofText definition.encodeScopes).toList := by
  cases readable with
  | false => exact ⟨[], by rw [List.nil_append]; rfl⟩
  | true => exact ⟨(clean name).toList ++ ['-'], by simp [ofHook_readable_toList]⟩

theorem exists_last_ofHook (readable : Bool) (name : String) (definition : Condition Scope) :
    ∃ last, (ofHook readable name definition).toList.getLast? = some last ∧
      Digest.IsDigit36 last := by
  obtain ⟨start, hlist⟩ := exists_ofHook_eq readable name definition
  have hne := Digest.ofText_ne_nil definition.encodeScopes
  refine ⟨_, ?_, Digest.isDigit36_of_mem (List.getLast_mem hne)⟩
  rw [hlist, List.getLast?_append_of_ne_nil _ hne, List.getLast?_eq_some_getLast hne]

private theorem eq_of_cons_hyphen {m x y : List Char} (hx : '-' ∉ x)
    (h : '-' :: x = m ++ '-' :: y) : x = y := by
  cases m with
  | nil => exact (List.cons.inj h).2
  | cons c m =>
    rw [(List.cons.inj h).2] at hx
    simp at hx

/-- What follows the last hyphen can be told from the whole. -/
theorem eq_of_hyphen {s t x y : List Char} (hx : '-' ∉ x) (hy : '-' ∉ y)
    (h : s ++ '-' :: x = t ++ '-' :: y) : x = y := by
  rcases List.append_eq_append_iff.mp h with ⟨m, -, hm⟩ | ⟨m, -, hm⟩
  · exact eq_of_cons_hyphen hx hm
  · exact (eq_of_cons_hyphen hy hm).symm

theorem digest_eq_of_ofHook_eq {readable : Bool} {name name' : String}
    {definition definition' : Condition Scope}
    (h : ofHook readable name definition = ofHook readable name' definition') :
    Digest.ofText definition.encodeScopes = Digest.ofText definition'.encodeScopes := by
  cases readable with
  | false => exact h
  | true =>
    have hlist := congrArg String.toList h
    rw [ofHook_readable_toList, ofHook_readable_toList] at hlist
    exact String.toList_inj.mp (eq_of_hyphen (Digest.hyphen_not_mem_ofText _)
      (Digest.hyphen_not_mem_ofText _) hlist)

theorem hyphen_not_mem_numbered (n : Nat) {q : List Char} (hq : IsPath q) :
    '-' ∉ (numbered n ++ String.ofList q).toList := by
  intro h
  rw [String.toList_append, String.toList_ofList, numbered_toList, List.mem_append,
    List.mem_append] at h
  rcases h with (hletter | hdigit) | hpath
  · exact absurd hletter (by decide)
  · exact absurd (isDigit_of_mem_toDigits hdigit) (by decide)
  · exact absurd (hq _ hpath) (by decide)

/-- A name with the name of its hook in front has a hyphen, and a numbered name has none. -/
theorem ofHook_readable_append_ne (name : String) (definition : Condition Scope) (n : Nat)
    (p : List Char) {q : List Char} (hq : IsPath q) :
    ofHook true name definition ++ String.ofList p ≠ numbered n ++ String.ofList q := by
  intro h
  apply hyphen_not_mem_numbered n hq
  rw [← h, String.toList_append, ofHook_readable_toList]
  simp

/-- Digests are too short for the numbers from hundred on. -/
theorem lt_of_ofText_eq_numbered {text : String} {n : Nat} (h : Digest.ofText text = numbered n) :
    n < 100 := by
  have hlength : (numbered n).toList.length ≤ 6 := by
    rw [← h, String.length_toList]
    exact Digest.length_ofText_le text
  rw [numbered_toList, List.length_append] at hlength
  have hword : "cond".toList.length = 4 := rfl
  have hdigits : (Nat.toDigits 10 n).length ≤ 2 := by omega
  exact (Nat.length_toDigits_le_iff (by omega) (by omega)).mp hdigits

/-- Default names of hooks have a digit at their end, and a path after them can be told off; so it
can after numbered names. Names with the name of their hook in front are no numbered names. -/
theorem toggle_names_decode :
    (∀ readable name definition,
      ofHook readable name definition ≠ "" ∧ IsName (ofHook readable name definition) ∧
        ∃ last, (ofHook readable name definition).toList.getLast? = some last ∧
          ('0' ≤ last ∧ last ≤ '9' ∨ 'a' ≤ last ∧ last ≤ 'z')) ∧
    (∀ readable name name' definition definition' p q, IsPath p → IsPath q →
      (ofHook readable name definition ++ String.ofList p =
          ofHook readable name' definition' ++ String.ofList q ↔
        ofHook readable name definition = ofHook readable name' definition' ∧ p = q)) ∧
    (∀ n m p q, IsPath p → IsPath q →
      (numbered n ++ String.ofList p = numbered m ++ String.ofList q ↔ n = m ∧ p = q)) ∧
    ∀ name definition n p q, IsPath p → IsPath q →
      ofHook true name definition ++ String.ofList p ≠ numbered n ++ String.ofList q := by
  refine ⟨?_, ?_, ?_, ?_⟩
  · intro readable name definition
    obtain ⟨last, hlast, hdigit⟩ := exists_last_ofHook readable name definition
    refine ⟨?_, isName_ofHook readable name definition, last, hlast, hdigit⟩
    intro hempty
    rw [hempty] at hlast
    cases hlast
  · intro readable name name' definition definition' p q hp hq
    exact append_path_inj (tipped_ofHook readable name definition)
      (tipped_ofHook readable name' definition') hp hq
  · intro n m p q hp hq
    rw [append_path_inj (tipped_numbered n) (tipped_numbered m) hp hq]
    constructor
    · rintro ⟨hname, hpath⟩
      exact ⟨numbered_injective hname, hpath⟩
    · rintro ⟨rfl, hpath⟩
      exact ⟨rfl, hpath⟩
  · intro name definition n p q _ hq
    exact ofHook_readable_append_ne name definition n p hq

/-- The operand of a hook with letters beyond ASCII, and numbers of which one starts the other. -/
theorem toggle_names_decode_operands :
    ofHook true "größe" (.atom (.selector "&:hover")) ++ String.ofList ['B', 'A'] ≠
        numbered 1 ++ String.ofList ['B', 'A'] ∧
      numbered 1 ++ String.ofList ['A'] ≠ numbered 11 ++ String.ofList ['A'] := by
  have hpath : IsPath ['B', 'A'] := by simp [IsPath]
  have hfirst : IsPath ['A'] := by simp [IsPath]
  obtain ⟨-, -, hnumbered, hreadable⟩ := toggle_names_decode
  refine ⟨hreadable _ _ 1 _ _ hpath hpath, ?_⟩
  intro h
  exact absurd ((hnumbered 1 11 _ _ hfirst hfirst).mp h).1 (by decide)

/-- Conditions over strings, and conditions over scopes that were made from texts, are told by their
encodings. So different definitions share a digest exactly where their encodings, which differ, have
the same word; and hooks that share a default name share a digest. -/
theorem encodings_tell_definitions :
    (∀ c d : Condition String, c.encode .string = d.encode .string → c = d) ∧
    (∀ c d : Condition Scope, (∀ scope ∈ c.atoms, scope.Parsed) →
      (∀ scope ∈ d.atoms, scope.Parsed) → c.encodeScopes = d.encodeScopes → c = d) ∧
    ∀ c d : Condition Scope, (∀ scope ∈ c.atoms, scope.Parsed) →
      (∀ scope ∈ d.atoms, scope.Parsed) → c ≠ d →
        c.encodeScopes ≠ d.encodeScopes ∧
        (Digest.ofText c.encodeScopes = Digest.ofText d.encodeScopes ↔
          Digest.value c.encodeScopes = Digest.value d.encodeScopes) ∧
        ∀ readable name name', ofHook readable name c = ofHook readable name' d →
          Digest.ofText c.encodeScopes = Digest.ofText d.encodeScopes := by
  refine ⟨fun c d => Condition.encode_injective, fun c d => Condition.encodeScopes_injective, ?_⟩
  intro c d hc hd hne
  refine ⟨?_, ?_, fun readable name name' => digest_eq_of_ofHook_eq⟩
  · intro htexts
    exact hne (Condition.encodeScopes_injective hc hd htexts)
  · constructor
    · exact Digest.numeral_injective
    · intro hvalue
      rw [Digest.ofText, hvalue, Digest.ofText]

/-- Two selectors with one digest. -/
theorem encodings_tell_colliding_definitions :
    let c : Condition Scope := .atom (.selector ".Aa &")
    let d : Condition Scope := .atom (.selector ".BB &")
    c.encodeScopes ≠ d.encodeScopes ∧
      Digest.value c.encodeScopes = Digest.value d.encodeScopes := by
  intro c d
  have hc : ∀ scope ∈ c.atoms, scope.Parsed := by
    intro scope hscope
    exact ⟨".Aa &", by rw [List.mem_singleton.mp hscope]; rfl⟩
  have hd : ∀ scope ∈ d.atoms, scope.Parsed := by
    intro scope hscope
    exact ⟨".BB &", by rw [List.mem_singleton.mp hscope]; rfl⟩
  obtain ⟨htexts, hdigests, -⟩ := encodings_tell_definitions.2.2 c d hc hd (by decide)
  exact ⟨htexts, hdigests.mp (by decide +kernel)⟩

end Identifier

end ConditionalStyles
