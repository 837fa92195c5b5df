import ConditionalStyles.Proofs.Condition.Replacement

/-!
What conditions with one normal form have in common. They stay together when their atoms are
replaced, and wherever they stand inside of a condition, one can take the place of the other. A
compound at the end of another one with the same connective may as well be spread out.
-/
namespace ConditionalStyles.Condition

variable {α β : Type}

/-- A condition in which one place is left open. -/
inductive Frame (α : Type) where
  | here
  | negation (inner : Frame α)
  | operand (k : Connective) (before : List (Condition α)) (inner : Frame α)
      (after : List (Condition α))

def Frame.fill (x : Condition α) : Frame α → Condition α
  | here => x
  | negation inner => not (fill x inner)
  | operand k before inner after => connect k (before ++ fill x inner :: after)

theorem normalizeList_append (cs ds : List (Condition α)) :
    normalizeList (cs ++ ds) = normalizeList cs ++ normalizeList ds := by
  simp only [normalizeList_eq_filterMap, List.filterMap_append]

theorem normalizeList_cons (c : Condition α) (cs : List (Condition α)) :
    normalizeList (c :: cs) = c.normalize.toList ++ normalizeList cs := by
  rw [normalizeList]
  cases c.normalize <;> rfl

/-- Only the normal form of an operand matters, however deep the operand lies. -/
theorem normalize_fill {x y : Condition α} (h : x.normalize = y.normalize) (frame : Frame α) :
    (frame.fill x).normalize = (frame.fill y).normalize := by
  induction frame with
  | here => exact h
  | negation inner ih => rw [Frame.fill, Frame.fill, normalize, normalize, ih]
  | operand k before inner after ih =>
    have hoperands : normalizeList (before ++ inner.fill x :: after) =
        normalizeList (before ++ inner.fill y :: after) := by
      rw [normalizeList_append, normalizeList_append, normalizeList_cons, normalizeList_cons, ih]
    rw [Frame.fill, Frame.fill, normalize, normalize, hoperands]

theorem normalize_connect_append (k : Connective) (xs ys : List (Condition α)) :
    (connect k (xs ++ [connect k ys])).normalize = (connect k (xs ++ ys)).normalize := by
  have hlast : normalizeList [connect k ys] = (pairAll? k (normalizeList ys)).toList := by
    rw [normalizeList_cons, normalize, normalizeList, List.append_nil]
  rw [normalize, normalize, normalizeList_append, normalizeList_append, hlast,
    pairAll?_append_pairAll?]

/-- The atoms of a condition and of its normal form may be replaced with one result; a condition
without normal form gets none by it. Inside of a condition, an operand may be exchanged for another
one with the same normal form, and a compound that comes last for its operands, if it has the
connective of the compound around it. -/
theorem normal_forms_are_congruent (c : Condition α) (f : α → Option β) :
    (∀ n, c.normalize = some n → (c.resolve f).normalize = (n.resolve f).normalize) ∧
      (c.normalize = none → (c.resolve f).normalize = none) ∧
      (∀ (frame : Frame α) (x y : Condition α), x.normalize = y.normalize →
        (frame.fill x).normalize = (frame.fill y).normalize) ∧
      ∀ (k : Connective) (xs ys : List (Condition α)),
        (connect k (xs ++ [connect k ys])).normalize = (connect k (xs ++ ys)).normalize := by
  refine ⟨?_, ?_, ?_, normalize_connect_append⟩
  · intro n hn
    rw [normalize_resolve, hn, Option.bind_some]
  · intro hnone
    rw [normalize_resolve, hnone, Option.bind_none]
  · intro frame x y h
    exact normalize_fill h frame

/-- Of four operands that were paired, the second and the last one are rejected; a negation that
only shows once its compound is gone takes the place of another one. -/
theorem normal_forms_are_congruent_under_rejection :
    let c : Condition Nat := .any [.atom 0, .atom 1, .any [.not (.not (.atom 2)), .atom 3]]
    let n : Condition Nat := .any [.atom 0, .any [.atom 1, .any [.atom 2, .atom 3]]]
    let f : Nat → Option Nat := fun a => if a % 2 = 1 then none else some a
    let x : Condition Nat := .all [.any [], .not (.atom 4)]
    let y : Condition Nat := .not (.all [.atom 4])
    let frame : Frame Nat := .negation (.operand .all [c] .here [.any []])
    c.normalize = some n ∧ (n.resolve f).normalize = some (.any [.atom 0, .atom 2]) ∧
      (c.resolve f).normalize = some (.any [.atom 0, .atom 2]) ∧
      (Condition.resolve f (.any [.all []])).normalize = none ∧
      x.normalize = y.normalize ∧ (frame.fill x).normalize = (frame.fill y).normalize := by
  intro c n f x y frame
  obtain ⟨hsome, -, hframe, -⟩ := normal_forms_are_congruent c f
  obtain ⟨-, hnone, -⟩ := normal_forms_are_congruent (.any [.all []]) f
  have hn : c.normalize = some n := by decide
  have hresolved : (n.resolve f).normalize = some (.any [.atom 0, .atom 2]) := by decide
  have hsame : x.normalize = y.normalize := by decide
  exact ⟨hn, hresolved, (hsome n hn).trans hresolved, hnone (by decide), hsame,
    hframe frame x y hsame⟩

end ConditionalStyles.Condition
