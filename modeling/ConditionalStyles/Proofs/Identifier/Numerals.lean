import ConditionalStyles.Identifier
import Mathlib.Algebra.Group.Nat.Defs

/-!
Numerals of digests. A numeral can be read back in base 36, so that different words have different
numerals, and a word of 31 bits has at most six digits.
-/
namespace ConditionalStyles.Digest

def digitValue36 (c : Char) : Nat := if c.toNat < 58 then c.toNat - 48 else c.toNat - 87

def readDigits (cs : List Char) : Nat := cs.foldl (fun n c => n * 36 + digitValue36 c) 0

theorem digitValue36_digit36 : ∀ n < 36, digitValue36 (digit36 n) = n := by decide

theorem readDigits_concat (cs : List Char) (c : Char) :
    readDigits (cs ++ [c]) = readDigits cs * 36 + digitValue36 c := by
  rw [readDigits, List.foldl_append]
  rfl

theorem readDigits_digitsFrom {places n : Nat} (h : n < 36 ^ places) :
    readDigits (digitsFrom places n) = n := by
  induction places generalizing n with
  | zero =>
    have hzero : n = 0 := by omega
    rw [hzero]
    rfl
  | succ places ih =>
    unfold digitsFrom
    split
    · next hn =>
      rw [← List.nil_append [digit36 n], readDigits_concat, digitValue36_digit36 n hn]
      exact Nat.zero_add n
    · have hrest : n / 36 < 36 ^ places := by
        rw [Nat.pow_succ] at h
        omega
      rw [readDigits_concat, ih hrest, digitValue36_digit36 (n % 36) (by omega)]
      omega

theorem readDigits_numeral (n : UInt32) : readDigits (numeral n).toList = n.toNat := by
  have hbound : n.toNat < 36 ^ 7 := by
    have := n.toNat_lt
    omega
  rw [numeral, String.toList_ofList, readDigits_digitsFrom hbound]

theorem numeral_injective {n m : UInt32} (h : numeral n = numeral m) : n = m := by
  apply UInt32.toNat_inj.mp
  rw [← readDigits_numeral, h, readDigits_numeral]

theorem length_digitsFrom_le {places n size : Nat} (hsize : 0 < size) (h : n < 36 ^ size) :
    (digitsFrom places n).length ≤ size := by
  induction places generalizing n size with
  | zero => exact Nat.zero_le size
  | succ places ih =>
    unfold digitsFrom
    split
    · exact hsize
    · next hn =>
      obtain ⟨size, rfl⟩ := Nat.exists_eq_succ_of_ne_zero (Nat.ne_of_gt hsize)
      have hrest : n / 36 < 36 ^ size := by
        rw [Nat.pow_succ] at h
        omega
      have hpos : 0 < size := by
        rcases Nat.eq_zero_or_pos size with rfl | hpos
        · omega
        · exact hpos
      have hlength := ih hpos hrest
      rw [List.length_append, List.length_singleton]
      omega

theorem absorb_lt (acc unit : UInt32) : (absorb acc unit).toNat < 2 ^ 31 := by
  rw [absorb, UInt32.toNat_and]
  exact Nat.lt_of_le_of_lt Nat.and_le_right (by decide)

/-- Digests are made from 31 bits. -/
theorem value_lt (s : String) : (value s).toNat < 2 ^ 31 := by
  unfold value
  rcases List.eq_nil_or_concat (Text.units s) with hnil | ⟨units, unit, hunits⟩
  · rw [hnil]
    decide
  · rw [hunits, List.concat_eq_append, List.foldl_append]
    exact absorb_lt _ unit

theorem length_ofText_le (s : String) : (ofText s).length ≤ 6 := by
  have hvalue : (value s).toNat < 36 ^ 6 := by
    have := value_lt s
    omega
  rw [ofText, numeral, String.length_ofList]
  exact length_digitsFrom_le (by omega) hvalue

end ConditionalStyles.Digest
