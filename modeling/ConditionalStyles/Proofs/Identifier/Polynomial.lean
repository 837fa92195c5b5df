import ConditionalStyles.Proofs.Identifier.Decoding
import Mathlib.Data.List.Induction
import Mathlib.Data.Nat.Digits.Defs

/-!
Digests as polynomials. The words that a digest is computed in wrap around, and a bit is masked off
after every unit, but modulo 2 ^ 31 nothing is lost: the value of a text is the value at 31 of the
polynomial whose coefficients are its units. A digest is the only numeral of this value in base 36,
so that two texts have the same digest exactly when their polynomials agree modulo 2 ^ 31.
-/
namespace ConditionalStyles

namespace Text

/-- The sixteen-bit units of characters, as numbers. A character above U+FFFF is spelled as a
leading and a trailing unit, with the ten upper and the ten lower bits of its code. -/
inductive IsUnits : List Char → List Nat → Prop
  | nil : IsUnits [] []
  | single {c : Char} {cs : List Char} {us : List Nat} (hc : c.toNat < 0x10000)
      (h : IsUnits cs us) : IsUnits (c :: cs) (c.toNat :: us)
  | pair {c : Char} {cs : List Char} {us : List Nat} {upper lower : Nat} (hupper : upper < 0x400)
      (hlower : lower < 0x400) (hc : c.toNat = 0x10000 + upper * 0x400 + lower)
      (h : IsUnits cs us) : IsUnits (c :: cs) ((0xD800 + upper) :: (0xDC00 + lower) :: us)

theorem charUnits_single {c : Char} (hc : c.toNat < 0x10000) :
    (charUnits c).map UInt32.toNat = [c.toNat] := by
  have hval : c.val < 0x10000 := UInt32.lt_iff_toNat_lt.mpr hc
  rw [charUnits, if_pos hval]
  rfl

theorem charUnits_pair {c : Char} {upper lower : Nat} (hupper : upper < 0x400)
    (hlower : lower < 0x400) (hc : c.toNat = 0x10000 + upper * 0x400 + lower) :
    (charUnits c).map UInt32.toNat = [0xD800 + upper, 0xDC00 + lower] := by
  have hnat : c.val.toNat = 0x10000 + upper * 0x400 + lower := hc
  have hval : ¬ c.val < 0x10000 := by
    rw [UInt32.lt_iff_toNat_lt, hnat]
    change ¬ _ < 0x10000
    omega
  have hcode : (upperCode c).toNat = upper * 0x400 + lower := by
    rw [upperCode, UInt32.toNat_sub, hnat]
    change (2 ^ 32 - 0x10000 + _) % 2 ^ 32 = _
    omega
  have hlead : ((0xD800 : UInt32) + (upperCode c >>> 10)).toNat = 0xD800 + upper := by
    rw [UInt32.toNat_add, UInt32.toNat_shiftRight, hcode, Nat.shiftRight_eq_div_pow]
    change (0xD800 + (upper * 0x400 + lower) / 2 ^ 10) % 2 ^ 32 = _
    omega
  have htrail : ((0xDC00 : UInt32) + (upperCode c &&& 0x3FF)).toNat = 0xDC00 + lower := by
    rw [UInt32.toNat_add, UInt32.toNat_and, hcode]
    change (0xDC00 + ((upper * 0x400 + lower) &&& (2 ^ 10 - 1))) % 2 ^ 32 = _
    rw [Nat.and_two_pow_sub_one_eq_mod]
    omega
  rw [charUnits, if_neg hval, List.map_cons, List.map_cons, List.map_nil, hlead, htrail]

/-- Units are found by shifting and masking. -/
theorem IsUnits.eq_units {cs : List Char} {us : List Nat} (h : IsUnits cs us) :
    (cs.flatMap charUnits).map UInt32.toNat = us := by
  induction h with
  | nil => rfl
  | single hc _ ih => rw [List.flatMap_cons, List.map_append, charUnits_single hc, ih]; rfl
  | pair hupper hlower hc _ ih =>
    rw [List.flatMap_cons, List.map_append, charUnits_pair hupper hlower hc, ih]
    rfl

theorem isUnits_units : (cs : List Char) → IsUnits cs ((cs.flatMap charUnits).map UInt32.toNat)
  | [] => .nil
  | c :: cs => by
    rw [List.flatMap_cons, List.map_append]
    by_cases hc : c.toNat < 0x10000
    · rw [charUnits_single hc]
      exact .single hc (isUnits_units cs)
    · have hlimit : c.toNat < 0x110000 := by
        have hvalid : c.toNat < 0xD800 ∨ 0xDFFF < c.toNat ∧ c.toNat < 0x110000 := c.valid
        omega
      have hupper : (c.toNat - 0x10000) / 0x400 < 0x400 := by omega
      have hlower : (c.toNat - 0x10000) % 0x400 < 0x400 := by omega
      have hcode : c.toNat =
          0x10000 + (c.toNat - 0x10000) / 0x400 * 0x400 + (c.toNat - 0x10000) % 0x400 := by
        omega
      rw [charUnits_pair hupper hlower hcode]
      exact .pair hupper hlower hcode (isUnits_units cs)

end Text

namespace Digest

/-- The value at 31, the first unit being the coefficient of the highest power. -/
def polynomial : List Nat → Nat
  | [] => 0
  | u :: us => u * 31 ^ us.length + polynomial us

theorem polynomial_concat (us : List Nat) (u : Nat) :
    polynomial (us ++ [u]) = 31 * polynomial us + u := by
  induction us with
  | nil => simp [polynomial]
  | cons first rest ih =>
    rw [List.cons_append, polynomial, polynomial, ih, List.length_append, List.length_singleton,
      Nat.pow_succ]
    ring

/-- The shift may drop bits and the difference may wrap around, but not modulo 2 ^ 31. -/
theorem toNat_absorb (acc unit : UInt32) :
    (absorb acc unit).toNat = (31 * acc.toNat + unit.toNat) % 2 ^ 31 := by
  have hacc := acc.toNat_lt
  have hshift : (acc <<< 5).toNat = 32 * acc.toNat % 2 ^ 32 := by
    rw [UInt32.toNat_shiftLeft, Nat.shiftLeft_eq, Nat.mul_comm]
    rfl
  have hmask : (0x7FFFFFFF : UInt32).toNat = 2 ^ 31 - 1 := rfl
  rw [absorb, UInt32.toNat_and, hmask, Nat.and_two_pow_sub_one_eq_mod, UInt32.toNat_add,
    UInt32.toNat_sub, hshift]
  omega

theorem toNat_foldl_absorb (units : List UInt32) :
    (units.foldl absorb 0).toNat = polynomial (units.map UInt32.toNat) % 2 ^ 31 := by
  induction units using List.reverseRecOn with
  | nil => rfl
  | append_singleton units unit ih =>
    rw [List.foldl_append, List.foldl_cons, List.foldl_nil, toNat_absorb, ih, List.map_append,
      List.map_singleton, polynomial_concat]
    omega

/-- The units of a text, as numbers. -/
def coefficients (s : String) : List Nat := (Text.units s).map UInt32.toNat

theorem toNat_value (s : String) : (value s).toNat = polynomial (coefficients s) % 2 ^ 31 :=
  toNat_foldl_absorb (Text.units s)

/-- The text is a numeral of the number in base 36. -/
structure IsNumeral36 (n : Nat) (text : String) : Prop where
  nonempty : text ≠ ""
  digits : ∀ c ∈ text.toList, IsDigit36 c
  /-- There are no leading zeros. -/
  leading : text.toList.head? = some '0' → text = "0"
  value : readDigits text.toList = n

theorem exists_leading_digit {places n : Nat} (hn : 0 < n) (h : n < 36 ^ places) :
    ∃ c rest, digitsFrom places n = c :: rest ∧ c ≠ '0' := by
  induction places generalizing n with
  | zero => omega
  | succ places ih =>
    unfold digitsFrom
    split
    · next hsmall =>
      refine ⟨digit36 n, [], rfl, fun hzero => ?_⟩
      have hvalue := digitValue36_digit36 n hsmall
      rw [hzero] at hvalue
      have hzeroValue : digitValue36 '0' = 0 := rfl
      omega
    · have hrest : n / 36 < 36 ^ places := by
        rw [Nat.pow_succ] at h
        omega
      obtain ⟨c, rest, hdigits, hc⟩ := ih (by omega) hrest
      exact ⟨c, rest ++ [digit36 (n % 36)], by rw [hdigits, List.cons_append], hc⟩

theorem isNumeral36_ofText (s : String) : IsNumeral36 (value s).toNat (ofText s) where
  nonempty hempty := ofText_ne_nil s (by rw [hempty]; rfl)
  digits _ := isDigit36_of_mem
  leading hzero := by
    rcases Nat.eq_zero_or_pos (value s).toNat with hvalue | hpos
    · rw [ofText, numeral, hvalue]
      rfl
    · have hbound : (value s).toNat < 36 ^ 7 := by
        have := value_lt s
        omega
      obtain ⟨c, rest, hdigits, hc⟩ := exists_leading_digit hpos hbound
      rw [ofText, numeral, String.toList_ofList, hdigits, List.head?_cons] at hzero
      exact absurd (Option.some_inj.mp hzero) hc
  value := readDigits_numeral (value s)

theorem digit36_digitValue36 {c : Char} (h : IsDigit36 c) :
    digit36 (digitValue36 c) = c ∧ digitValue36 c < 36 := by
  have hrange : 48 ≤ c.toNat ∧ c.toNat ≤ 57 ∨ 97 ≤ c.toNat ∧ c.toNat ≤ 122 := h
  have hback : Char.ofNat c.toNat = c := Char.ofNat_toNat c
  rcases hrange with hdigit | hletter
  · have hvalue : digitValue36 c = c.toNat - 48 := if_pos (by omega)
    rw [hvalue, digit36, if_pos (by omega), Nat.add_sub_cancel' hdigit.1]
    exact ⟨hback, by omega⟩
  · have hvalue : digitValue36 c = c.toNat - 87 := if_neg (by omega)
    rw [hvalue, digit36, if_neg (by omega), Nat.add_sub_cancel' (by omega)]
    exact ⟨hback, by omega⟩

theorem readDigits_eq_ofDigits (cs : List Char) :
    readDigits cs = Nat.ofDigits 36 (cs.reverse.map digitValue36) := by
  induction cs using List.reverseRecOn with
  | nil => rfl
  | append_singleton cs c ih =>
    rw [readDigits_concat, ih, List.reverse_concat, List.map_cons, Nat.ofDigits_cons]
    ring

namespace IsNumeral36

variable {n : Nat} {text text' : String}

/-- Backwards, a numeral has the digits of its number. -/
theorem reverse_eq (h : IsNumeral36 n text) (hzero : text ≠ "0") :
    text.toList.reverse = (Nat.digits 36 n).map digit36 := by
  have hsmall : ∀ d ∈ text.toList.reverse.map digitValue36, d < 36 := by
    intro d hd
    obtain ⟨c, hc, rfl⟩ := List.mem_map.mp hd
    exact (digit36_digitValue36 (h.digits c (List.mem_reverse.mp hc))).2
  have hlast : ∀ hne, (text.toList.reverse.map digitValue36).getLast hne ≠ 0 := by
    intro hne hvalue
    rw [List.getLast_eq_iff_getLast?_eq_some, List.getLast?_map, List.getLast?_reverse,
      Option.map_eq_some_iff] at hvalue
    obtain ⟨c, hhead, hc⟩ := hvalue
    have hdigit : IsDigit36 c := h.digits c (List.mem_of_mem_head? hhead)
    have hfirst : c = '0' := by
      rw [← (digit36_digitValue36 hdigit).1, hc]
      rfl
    exact hzero (h.leading (hfirst ▸ hhead))
  have hdigits : Nat.digits 36 n = text.toList.reverse.map digitValue36 := by
    rw [← h.value, readDigits_eq_ofDigits]
    exact Nat.digits_ofDigits 36 (by omega) _ hsmall hlast
  have hback : text.toList.reverse.map (digit36 ∘ digitValue36) = text.toList.reverse.map id :=
    List.map_congr_left fun c hc =>
      (digit36_digitValue36 (h.digits c (List.mem_reverse.mp hc))).1
  rw [hdigits, List.map_map, hback, List.map_id]

theorem ne_zero (h : IsNumeral36 n text) (hzero : text ≠ "0") : n ≠ 0 := by
  rintro rfl
  have hreverse := h.reverse_eq hzero
  rw [Nat.digits_zero, List.map_nil, List.reverse_eq_nil_iff] at hreverse
  exact h.nonempty (String.toList_inj.mp hreverse)

/-- A number has one numeral. -/
theorem unique (h : IsNumeral36 n text) (h' : IsNumeral36 n text') : text = text' := by
  by_cases hzero : text = "0"
  · by_contra hne
    have hn : n = 0 := by
      rw [← h.value, hzero]
      rfl
    exact h'.ne_zero (fun hzero' => hne (hzero.trans hzero'.symm)) hn
  · have hzero' : text' ≠ "0" := by
      intro heq
      apply h.ne_zero hzero
      rw [← h'.value, heq]
      rfl
    have hreverse := (h.reverse_eq hzero).trans (h'.reverse_eq hzero').symm
    exact String.toList_inj.mp (List.reverse_inj.mp hreverse)

end IsNumeral36

/-- The digest of a text is the numeral, of six digits at most, of its polynomial modulo 2 ^ 31, and
is read back as that number; so texts have the same digest exactly when their polynomials agree. The
coefficients are the units of the text. -/
theorem digests_are_polynomials (s t : String) :
    (∀ units, Text.IsUnits s.toList units ↔ units = coefficients s) ∧
      (∀ text, IsNumeral36 (polynomial (coefficients s) % 2 ^ 31) text ↔ text = ofText s) ∧
      (ofText s).length ≤ 6 ∧
      readDigits (ofText s).toList = polynomial (coefficients s) % 2 ^ 31 ∧
      (ofText s = ofText t ↔
        polynomial (coefficients s) % 2 ^ 31 = polynomial (coefficients t) % 2 ^ 31) := by
  have hnumeral := isNumeral36_ofText s
  rw [toNat_value] at hnumeral
  refine ⟨fun units => ⟨fun h => h.eq_units.symm, ?_⟩, fun text => ⟨fun h => h.unique hnumeral, ?_⟩,
    length_ofText_le s, hnumeral.value, ?_⟩
  · rintro rfl
    exact Text.isUnits_units s.toList
  · rintro rfl
    exact hnumeral
  · rw [← toNat_value, ← toNat_value, UInt32.toNat_inj]
    exact ⟨numeral_injective, congrArg numeral⟩

-- The last character is spelled as two units, and the polynomial does not fit into 31 bits.
example : polynomial (coefficients "hooks 😀") = 2963106658259 ∧ ofText "hooks 😀" = "sk1c5v" := by
  decide +kernel

end Digest

end ConditionalStyles
