import ConditionalStyles.Condition.Normal

/-!
Canonical conditions: every compound has two operands and no negation stands directly under
another. Normal forms are canonical. In a canonical condition no compound is without operands.
-/
namespace ConditionalStyles.Condition

variable {α : Type}

def isNegation : Condition α → Bool
  | not _ => true
  | atom _ => false
  | connect _ _ => false

mutual

def Canonical : Condition α → Prop
  | atom _ => True
  | not c => c.isNegation = false ∧ Canonical c
  | connect _ cs => cs.length = 2 ∧ CanonicalList cs

def CanonicalList : List (Condition α) → Prop
  | [] => True
  | c :: cs => Canonical c ∧ CanonicalList cs

end

mutual

/-- Every compound has an operand. -/
def Filled : Condition α → Prop
  | atom _ => True
  | not c => Filled c
  | connect _ cs => cs ≠ [] ∧ FilledList cs

def FilledList : List (Condition α) → Prop
  | [] => True
  | c :: cs => Filled c ∧ FilledList cs

end

/-- Canonical conditions are built from atoms by negating what is not negated and by joining two. -/
@[elab_as_elim]
theorem Canonical.induction {motive : (c : Condition α) → c.Canonical → Prop}
    (atom : ∀ a, motive (atom a) trivial)
    (not : ∀ (c : Condition α) (hnot : c.isNegation = false) (hc : c.Canonical),
      motive c hc → motive (not c) ⟨hnot, hc⟩)
    (connect : ∀ (k : Connective) (a b : Condition α) (ha : a.Canonical) (hb : b.Canonical),
      motive a ha → motive b hb → motive (connect k [a, b]) ⟨rfl, ha, hb, trivial⟩) :
    (c : Condition α) → (h : c.Canonical) → motive c h
  | .atom a, _ => atom a
  | .not c, h => not c h.1 h.2 (Canonical.induction atom not connect c h.2)
  | .connect k [a, b], h =>
    connect k a b h.2.1 h.2.2.1 (Canonical.induction atom not connect a h.2.1)
      (Canonical.induction atom not connect b h.2.2.1)
  | .connect _ [], h => absurd h.1 (by simp)
  | .connect _ [_], h => absurd h.1 (by simp)
  | .connect _ (_ :: _ :: _ :: _), h => absurd h.1 (by simp)

theorem Canonical.filled {c : Condition α} (h : c.Canonical) : c.Filled := by
  induction c, h using Canonical.induction with
  | atom a => trivial
  | not c hnot hc ih => exact ih
  | connect k a b ha hb iha ihb => exact ⟨by simp, iha, ihb, trivial⟩

theorem canonical_negate {c : Condition α} (h : c.Canonical) : c.negate.Canonical := by
  cases c with
  | atom a => exact ⟨rfl, h⟩
  | not d => exact h.2
  | connect k cs => exact ⟨rfl, h⟩

theorem canonical_pair (k : Connective) {c : Condition α} {ds : List (Condition α)}
    (hc : c.Canonical) (hds : ∀ d ∈ ds, d.Canonical) : (pair k c ds).Canonical := by
  induction ds generalizing c with
  | nil => exact hc
  | cons d ds ih =>
    have hrest := ih (hds d List.mem_cons_self) fun e he => hds e (List.mem_cons_of_mem d he)
    exact ⟨rfl, hc, hrest, trivial⟩

mutual

theorem canonical_of_normalize :
    {c n : Condition α} → c.normalize = some n → n.Canonical
  | atom a, n, h => by
    cases h
    trivial
  | not c, n, h => by
    obtain ⟨d, hd, rfl⟩ := Option.map_eq_some_iff.mp h
    exact canonical_negate (canonical_of_normalize hd)
  | connect k cs, n, h => by
    have hall : ∀ n ∈ normalizeList cs, n.Canonical := canonical_of_mem_normalizeList
    rw [normalize] at h
    cases hcs : normalizeList cs with
    | nil =>
      rw [hcs] at h
      cases h
    | cons d ds =>
      rw [hcs] at h hall
      cases h
      exact canonical_pair k (hall d List.mem_cons_self)
        fun e he => hall e (List.mem_cons_of_mem d he)

theorem canonical_of_mem_normalizeList :
    {cs : List (Condition α)} → ∀ n ∈ normalizeList cs, n.Canonical
  | [], n, h => by cases h
  | c :: cs, n, h => by
    rw [normalizeList] at h
    cases hc : normalize c with
    | none =>
      rw [hc] at h
      exact canonical_of_mem_normalizeList n h
    | some d =>
      rw [hc] at h
      rcases List.mem_cons.mp h with rfl | hin
      · exact canonical_of_normalize hc
      · exact canonical_of_mem_normalizeList n hin

end

end ConditionalStyles.Condition
