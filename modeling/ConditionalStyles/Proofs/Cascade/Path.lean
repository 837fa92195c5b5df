import Mathlib.Data.List.Nodup

/-!
Names of operands. The toggles of the operands of a compound are named by a letter after its own
name, so that every toggle below it has its name with a path of letters. Names in the first and in
the second operand differ, and both differ from the name of the compound.
-/
namespace ConditionalStyles.Cascade

/-- The letters that lead to an operand. -/
def IsPath (cs : List Char) : Prop := ∀ c ∈ cs, c = 'A' ∨ c = 'B'

/-- The name is the given one with a path after it. -/
def Below (base name : String) : Prop := ∃ path, IsPath path ∧ name.toList = base.toList ++ path

theorem below_self (base : String) : Below base base := ⟨[], by simp [IsPath], by simp⟩

theorem below_of_first {base name : String} (h : Below (base ++ "A") name) : Below base name := by
  obtain ⟨path, hpath, hname⟩ := h
  refine ⟨'A' :: path, ?_, by simpa using hname⟩
  intro c hc
  rcases List.mem_cons.mp hc with rfl | hin
  · exact Or.inl rfl
  · exact hpath c hin

theorem below_of_second {base name : String} (h : Below (base ++ "B") name) : Below base name := by
  obtain ⟨path, hpath, hname⟩ := h
  refine ⟨'B' :: path, ?_, by simpa using hname⟩
  intro c hc
  rcases List.mem_cons.mp hc with rfl | hin
  · exact Or.inr rfl
  · exact hpath c hin

theorem Below.first_ne_second {base a b : String} (ha : Below (base ++ "A") a)
    (hb : Below (base ++ "B") b) : a ≠ b := by
  rintro rfl
  obtain ⟨p, -, hp⟩ := ha
  obtain ⟨q, -, hq⟩ := hb
  rw [hp] at hq
  simp at hq

theorem Below.first_ne {base a : String} (ha : Below (base ++ "A") a) : a ≠ base := by
  rintro rfl
  obtain ⟨p, -, hp⟩ := ha
  have hlength := congrArg List.length hp
  simp at hlength

theorem Below.second_ne {base b : String} (hb : Below (base ++ "B") b) : b ≠ base := by
  rintro rfl
  obtain ⟨p, -, hp⟩ := hb
  have hlength := congrArg List.length hp
  simp at hlength

/-- Names below two operands and the name of their compound are distinct where they are distinct
below each operand. -/
theorem nodup_below {base : String} {as bs : List String} (ha : ∀ a ∈ as, Below (base ++ "A") a)
    (hb : ∀ b ∈ bs, Below (base ++ "B") b) (has : as.Nodup) (hbs : bs.Nodup) :
    (as ++ bs ++ [base]).Nodup := by
  refine List.nodup_append.mpr ⟨List.nodup_append.mpr ⟨has, hbs, ?_⟩, by simp, ?_⟩
  · intro a hin b hin'
    exact (ha a hin).first_ne_second (hb b hin')
  · intro name hin other hother
    rw [List.mem_singleton.mp hother]
    rcases List.mem_append.mp hin with h | h
    · exact (ha name h).first_ne
    · exact (hb name h).second_ne

end ConditionalStyles.Cascade
