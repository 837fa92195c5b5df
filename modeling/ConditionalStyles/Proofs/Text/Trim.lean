/-!
Blank characters, and texts without the blanks around them. Blanks are the characters with the
Unicode property White_Space.
-/
namespace ConditionalStyles.Text

def isBlank (c : Char) : Bool :=
  (9 ≤ c.toNat && c.toNat ≤ 13) || c.toNat == 32 || c.toNat == 0x85 || c.toNat == 0xA0 ||
    c.toNat == 0x1680 || (0x2000 ≤ c.toNat && c.toNat ≤ 0x200A) || c.toNat == 0x2028 ||
    c.toNat == 0x2029 || c.toNat == 0x202F || c.toNat == 0x205F || c.toNat == 0x3000

def Blank (cs : List Char) : Prop := ∀ c ∈ cs, isBlank c = true

instance (cs : List Char) : Decidable (Blank cs) := List.decidableBAll _ cs

def trimStart (cs : List Char) : List Char := cs.dropWhile isBlank

def trim (cs : List Char) : List Char := (trimStart (trimStart cs).reverse).reverse

theorem blank_nil : Blank [] := by simp [Blank]

theorem blank_append {a b : List Char} (ha : Blank a) (hb : Blank b) : Blank (a ++ b) := by
  intro c hc
  rcases List.mem_append.mp hc with h | h
  · exact ha c h
  · exact hb c h

theorem blank_reverse {a : List Char} (ha : Blank a) : Blank a.reverse := by
  intro c hc
  exact ha c (List.mem_reverse.mp hc)

theorem blank_flatMap {α : Type} {f : α → List Char} {parts : List α}
    (h : ∀ a ∈ parts, Blank (f a)) : Blank (parts.flatMap f) := by
  intro c hc
  obtain ⟨a, ha, hca⟩ := List.mem_flatMap.mp hc
  exact h a ha c hca

theorem trimStart_blank_append {a : List Char} (ha : Blank a) (b : List Char) :
    trimStart (a ++ b) = trimStart b :=
  List.dropWhile_append_of_pos ha

theorem trimStart_blank {a : List Char} (ha : Blank a) : trimStart a = [] := by
  have h := trimStart_blank_append ha []
  rwa [List.append_nil] at h

theorem trimStart_eq_self {c : Char} {cs : List Char} (h : isBlank c = false) :
    trimStart (c :: cs) = c :: cs := by
  simp [trimStart, h]

theorem trim_blank_append {a : List Char} (ha : Blank a) (b : List Char) :
    trim (a ++ b) = trim b := by
  simp only [trim, trimStart_blank_append ha]

theorem trim_append_blank (a : List Char) {b : List Char} (hb : Blank b) :
    trim (a ++ b) = trim a := by
  have hend (x : List Char) : trimStart (x ++ b).reverse = trimStart x.reverse := by
    rw [List.reverse_append, trimStart_blank_append (blank_reverse hb)]
  have hstart : trimStart (a ++ b) =
      if (trimStart a).isEmpty then trimStart b else trimStart a ++ b :=
    List.dropWhile_append
  simp only [trim]
  rw [hstart]
  split
  · next hempty =>
    have hnil : trimStart a = [] := List.isEmpty_iff.mp hempty
    rw [hnil, trimStart_blank hb]
  · rw [hend]

theorem trim_blank {a : List Char} (ha : Blank a) : trim a = [] := by
  have h := trim_append_blank [] ha
  rwa [List.nil_append] at h

/-- Nothing is taken off before a first character that is not blank. -/
theorem trim_cons {c : Char} (h : isBlank c = false) (cs : List Char) :
    ∃ rest, trim (c :: cs) = c :: rest := by
  have hlast : trimStart [c] = [c] := trimStart_eq_self h
  have hrev : trimStart (c :: cs).reverse =
      if (trimStart cs.reverse).isEmpty then [c] else trimStart cs.reverse ++ [c] := by
    rw [List.reverse_cons, trimStart, List.dropWhile_append]
    exact congrArg (fun d => if (trimStart cs.reverse).isEmpty then d else _) hlast
  simp only [trim, trimStart_eq_self h, hrev]
  split
  · exact ⟨[], rfl⟩
  · exact ⟨(trimStart cs.reverse).reverse, by simp⟩

/-- A text that neither starts nor ends with a blank is trimmed already. -/
theorem trim_eq_self {first last : Char} {middle : List Char} (hfirst : isBlank first = false)
    (hlast : isBlank last = false) :
    trim (first :: (middle ++ [last])) = first :: (middle ++ [last]) := by
  have hrev : (first :: (middle ++ [last])).reverse = last :: (first :: middle).reverse := by
    simp
  simp only [trim, trimStart_eq_self hfirst]
  rw [hrev, trimStart_eq_self hlast, ← hrev, List.reverse_reverse]

end ConditionalStyles.Text
