import ConditionalStyles.Identifier
import ConditionalStyles.Proofs.Cascade.Path
import ConditionalStyles.Proofs.Cascade.SheetText

/-!
Names of toggles that come from hooks and from numbers. None of them ends with a letter of a path,
so the name that a path was put after can be told from the whole: toggles below different names are
different.
-/
namespace ConditionalStyles

open Cascade

namespace Cascade

/-- The name ends with a character that is no letter of a path. -/
def Tipped (name : String) : Prop :=
  ∃ start tip, name.toList = start ++ [tip] ∧ tip ≠ 'A' ∧ tip ≠ 'B'

private theorem tail_eq_nil {start path rest : List Char} {tip : Char} {whole : List Char}
    (hwhole : start ++ [tip] = whole ++ path) (htip : tip ≠ 'A' ∧ tip ≠ 'B')
    (hpath : IsPath (path ++ rest)) : path = [] := by
  rcases List.eq_nil_or_concat path with hnil | ⟨init, last, rfl⟩
  · exact hnil
  · rw [List.concat_eq_append, ← List.append_assoc] at hwhole
    have hends := List.append_inj' hwhole rfl
    have hlast : tip = last := List.singleton_inj.mp hends.2
    have hletter := hpath last (by simp)
    rw [← hlast] at hletter
    rcases hletter with h | h
    · exact absurd h htip.1
    · exact absurd h htip.2

/-- A toggle is below one tipped name only. -/
theorem Below.unique {a b name : String} (ha : Tipped a) (hb : Tipped b) (hna : Below a name)
    (hnb : Below b name) : a = b := by
  obtain ⟨starta, tipa, hstarta, htipa⟩ := ha
  obtain ⟨startb, tipb, hstartb, htipb⟩ := hb
  obtain ⟨patha, hpatha, hnamea⟩ := hna
  obtain ⟨pathb, hpathb, hnameb⟩ := hnb
  rw [hnamea] at hnameb
  rcases List.append_eq_append_iff.mp hnameb with
    ⟨middle, hlonger, hrest⟩ | ⟨middle, hlonger, hrest⟩
  · rw [hrest] at hpatha
    have hnil := tail_eq_nil (hstartb.symm.trans hlonger) htipb hpatha
    rw [hnil, List.append_nil] at hlonger
    exact String.toList_inj.mp hlonger.symm
  · rw [hrest] at hpathb
    have hnil := tail_eq_nil (hstarta.symm.trans hlonger) htipa hpathb
    rw [hnil, List.append_nil] at hlonger
    exact String.toList_inj.mp hlonger

end Cascade

namespace Digest

theorem digit36_spec : ∀ n < 36, isNameChar (digit36 n) = true ∧ digit36 n ≠ 'A' ∧
    digit36 n ≠ 'B' := by
  decide

theorem mem_digitsFrom {places n : Nat} {c : Char} (h : c ∈ digitsFrom places n) :
    ∃ d < 36, c = digit36 d := by
  induction places generalizing n with
  | zero => cases h
  | succ places ih =>
    unfold digitsFrom at h
    split at h
    · next hn => exact ⟨n, hn, List.mem_singleton.mp h⟩
    · rcases List.mem_append.mp h with hleft | hright
      · exact ih hleft
      · exact ⟨n % 36, Nat.mod_lt n (by omega), List.mem_singleton.mp hright⟩

theorem digitsFrom_last (places n : Nat) :
    ∃ start, ∃ d < 36, digitsFrom (places + 1) n = start ++ [digit36 d] := by
  unfold digitsFrom
  split
  · next hn => exact ⟨[], n, hn, rfl⟩
  · exact ⟨_, n % 36, Nat.mod_lt n (by omega), rfl⟩

theorem isName_ofText (text : String) : IsName (ofText text) := by
  intro c hc
  rw [ofText, numeral, String.toList_ofList] at hc
  obtain ⟨d, hd, rfl⟩ := mem_digitsFrom hc
  exact (digit36_spec d hd).1

theorem tipped_ofText (text : String) : Tipped (ofText text) := by
  obtain ⟨start, d, hd, hdigits⟩ := digitsFrom_last 6 (value text).toNat
  refine ⟨start, digit36 d, ?_, (digit36_spec d hd).2⟩
  rw [ofText, numeral, String.toList_ofList, hdigits]

end Digest

namespace Identifier

theorem isName_clean (name : String) : IsName (clean name) := by
  intro c hc
  rw [clean, String.toList_ofList] at hc
  obtain ⟨d, -, rfl⟩ := List.mem_map.mp hc
  split
  · next hplain =>
    rw [isPlain] at hplain
    rw [isNameChar, hplain, Bool.true_or]
  · decide

theorem isName_ofHook (readable : Bool) (name : String) (definition : Condition Scope) :
    IsName (ofHook readable name definition) := by
  have hdigest := Digest.isName_ofText definition.encodeScopes
  unfold ofHook
  split
  · exact isName_append (isName_append (isName_clean name) (by decide)) hdigest
  · exact hdigest

theorem tipped_ofHook (readable : Bool) (name : String) (definition : Condition Scope) :
    Tipped (ofHook readable name definition) := by
  have hdigest := Digest.tipped_ofText definition.encodeScopes
  unfold ofHook
  split
  · obtain ⟨start, tip, hstart, htip⟩ := hdigest
    refine ⟨(clean name ++ "-").toList ++ start, tip, ?_, htip⟩
    rw [String.toList_append, hstart, List.append_assoc]
  · exact hdigest

theorem numbered_toList (n : Nat) : (numbered n).toList = "cond".toList ++ Nat.toDigits 10 n := by
  rw [numbered, String.toList_append, Nat.toString_eq_repr, Nat.toList_repr]

theorem isDigit_of_mem_toDigits {n : Nat} {c : Char} (h : c ∈ Nat.toDigits 10 n) :
    c.isDigit = true :=
  Nat.isDigit_of_mem_toDigits (by omega) (by omega) h

theorem isName_numbered (n : Nat) : IsName (numbered n) := by
  intro c hc
  rw [numbered_toList] at hc
  rcases List.mem_append.mp hc with hletter | hdigit
  · have hletters : IsName "cond" := by decide
    exact hletters c hletter
  · simp [isNameChar, Char.isAlphanum, isDigit_of_mem_toDigits hdigit]

theorem tipped_numbered (n : Nat) : Tipped (numbered n) := by
  rcases List.eq_nil_or_concat (Nat.toDigits 10 n) with hnil | ⟨start, tip, hdigits⟩
  · exact absurd hnil Nat.toDigits_ne_nil
  · rw [List.concat_eq_append] at hdigits
    have hdigit : tip.isDigit = true := isDigit_of_mem_toDigits (n := n) (by rw [hdigits]; simp)
    refine ⟨"cond".toList ++ start, tip, ?_, ?_, ?_⟩
    · rw [numbered_toList, hdigits, List.append_assoc]
    · rintro rfl
      exact absurd hdigit (by decide)
    · rintro rfl
      exact absurd hdigit (by decide)

theorem numbered_injective {n m : Nat} (h : numbered n = numbered m) : n = m := by
  have hlist : "cond".toList ++ Nat.toDigits 10 n = "cond".toList ++ Nat.toDigits 10 m := by
    rw [← numbered_toList, ← numbered_toList, h]
  rw [← Nat.ofDigitChars_ten_toDigits (n := n), List.append_cancel_left hlist,
    Nat.ofDigitChars_ten_toDigits]

/-- Toggles of different numbers are different, with all that is below them. -/
theorem numbered_unique {n m : Nat} {name : String} (hn : Below (numbered n) name)
    (hm : Below (numbered m) name) : n = m :=
  numbered_injective (hn.unique (tipped_numbered n) (tipped_numbered m) hm)

end Identifier

end ConditionalStyles
