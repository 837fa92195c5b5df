import ConditionalStyles.Condition.Query
import ConditionalStyles.Proofs.Condition.Meaning
import ConditionalStyles.Proofs.Condition.Replacement

/-!
Normal forms against the conditions that they come from. A normal form has the meaning of its
condition; where every compound has an operand, it also asks the same questions in the same order.
The conditions that are their own normal forms are the canonical ones.
-/
namespace ConditionalStyles

/-- Operands are asked one after the other, until one of them decides. -/
def Connective.joinM {m : Type → Type} [Monad m] (k : Connective) (operands : List (m Bool)) :
    m Bool :=
  operands.foldr (fun operand rest => do
    let value ← operand
    if value = k.neutral then rest else return !k.neutral) (return k.neutral)

namespace Condition

variable {α : Type}

mutual

theorem resolve_some : (c : Condition α) → c.resolve some = c
  | atom _ => rfl
  | not c => by rw [resolve, resolve_some c]
  | connect k cs => by rw [resolve, resolveList_some cs]

theorem resolveList_some : (cs : List (Condition α)) → resolveList some cs = cs
  | [] => rfl
  | c :: cs => by rw [resolveList, resolve_some c, resolveList_some cs]

end

theorem evaluate_normalize (holds : α → Bool) (c : Condition α) :
    c.normalize.map (evaluate holds) = c.meaning? fun a => some (holds a) := by
  have h := evaluate_normalize_resolve some holds c
  rwa [resolve_some] at h

section Questions

variable {m : Type → Type} [Monad m]

/-- Asks, and puts the atom at the end of a list of those that were asked about. -/
def recorded (ask : α → m Bool) (a : α) : StateT (List α) m Bool := do
  modify (· ++ [a])
  ask a

theorem evaluateListM_eq_joinM (ask : α → m Bool) (k : Connective) (cs : List (Condition α)) :
    evaluateListM ask k cs = k.joinM (cs.map (evaluateM ask)) := by
  induction cs with
  | nil => rfl
  | cons c cs ih => rw [evaluateListM, ih]; rfl

theorem evaluateListM_singleton [LawfulMonad m] (ask : α → m Bool) (k : Connective)
    (c : Condition α) : evaluateListM ask k [c] = c.evaluateM ask := by
  have hanswer : ∀ value : Bool,
      (if value = k.neutral then (pure k.neutral : m Bool) else pure !k.neutral) = pure value := by
    intro value
    cases k <;> cases value <;> rfl
  simp only [evaluateListM, hanswer, bind_pure]

theorem evaluateM_negate [LawfulMonad m] (ask : α → m Bool) (c : Condition α) :
    c.negate.evaluateM ask = (!·) <$> c.evaluateM ask := by
  cases c with
  | atom a => exact bind_pure_comp _ _
  | connect k cs => exact bind_pure_comp _ _
  | not d => simp [negate, evaluateM]

/-- Folding operands into pairs keeps the order of the questions, and where they end. -/
theorem evaluateM_pair [LawfulMonad m] (ask : α → m Bool) (k : Connective) (c : Condition α)
    (ds : List (Condition α)) : (pair k c ds).evaluateM ask = evaluateListM ask k (c :: ds) := by
  induction ds generalizing c with
  | nil => rw [pair, evaluateListM_singleton]
  | cons d ds ih =>
    have hrest : evaluateListM ask k [pair k d ds] = evaluateListM ask k (d :: ds) := by
      rw [evaluateListM_singleton, ih d]
    rw [pair, evaluateM, evaluateListM, hrest]
    rfl

mutual

theorem exists_normalize_of_filled [LawfulMonad m] (ask : α → m Bool) :
    {c : Condition α} → c.Filled →
      ∃ n, c.normalize = some n ∧ n.evaluateM ask = c.evaluateM ask
  | atom a, _ => ⟨atom a, rfl, rfl⟩
  | not c, h => by
    have hc : c.Filled := h
    obtain ⟨n, hn, hsame⟩ := exists_normalize_of_filled ask hc
    refine ⟨n.negate, by rw [normalize, hn, Option.map_some], ?_⟩
    rw [evaluateM_negate, hsame, evaluateM, bind_pure_comp]
  | connect k cs, h => by
    have hlist := map_evaluateM_normalizeList ask h.2
    have hsame : evaluateListM ask k (normalizeList cs) = evaluateListM ask k cs := by
      rw [evaluateListM_eq_joinM, evaluateListM_eq_joinM, hlist]
    cases hcs : normalizeList cs with
    | nil =>
      -- As many operands remain as there were.
      rw [hcs] at hlist
      exact absurd (List.map_eq_nil_iff.mp hlist.symm) h.1
    | cons d ds =>
      refine ⟨pair k d ds, by rw [normalize, hcs, pairAll?], ?_⟩
      rw [evaluateM_pair, ← hcs, hsame, evaluateM]

/-- No operand is lost. -/
theorem map_evaluateM_normalizeList [LawfulMonad m] (ask : α → m Bool) :
    {cs : List (Condition α)} → FilledList cs →
      (normalizeList cs).map (evaluateM ask) = cs.map (evaluateM ask)
  | [], _ => rfl
  | c :: cs, h => by
    obtain ⟨n, hn, hsame⟩ := exists_normalize_of_filled ask h.1
    have hrest := map_evaluateM_normalizeList ask h.2
    rw [normalizeList, hn, List.map_cons, List.map_cons, hsame, hrest]

end

theorem evaluateM_normalize [LawfulMonad m] (ask : α → m Bool) {c n : Condition α}
    (h : c.Filled) (hn : c.normalize = some n) : n.evaluateM ask = c.evaluateM ask := by
  obtain ⟨d, hd, hsame⟩ := exists_normalize_of_filled ask h
  rw [hn] at hd
  cases hd
  exact hsame

end Questions

/-- A normal form is missing exactly where the meaning is, and otherwise has it for its truth value.
Where every compound has an operand, condition and normal form get the same answer from any
questions, whatever these do besides, and ask about the same atoms in the same order. -/
theorem normalize_preserves_meaning (c : Condition α) :
    (∀ holds : α → Bool,
      (c.normalize = none ↔ (c.meaning? fun a => some (holds a)) = none) ∧
        ∀ n, c.normalize = some n →
          (c.meaning? fun a => some (holds a)) = some (n.evaluate holds)) ∧
      (c.Filled → ∃ n, c.normalize = some n ∧
        ∀ (m : Type → Type) [Monad m] [LawfulMonad m] (ask : α → m Bool),
          n.evaluateM ask = c.evaluateM ask ∧
            n.evaluateM (recorded ask) = c.evaluateM (recorded ask)) := by
  constructor
  · intro holds
    rw [← evaluate_normalize holds c]
    refine ⟨Option.map_eq_none_iff.symm, ?_⟩
    intro n hn
    rw [hn, Option.map_some]
  · intro hfilled
    obtain ⟨n, hn, -⟩ := exists_normalize_of_filled (m := Id) (fun _ => false) hfilled
    refine ⟨n, hn, ?_⟩
    intro m _ _ ask
    exact ⟨evaluateM_normalize ask hfilled hn, evaluateM_normalize (recorded ask) hfilled hn⟩

/-- The negation of a nested conjunction, asked with answers that alternate: the third operand is
not asked about. -/
theorem normalize_preserves_alternating_answers :
    let c : Condition Nat := .not (.all [.any [.not (.not (.atom 0))], .atom 1, .atom 2])
    let n : Condition Nat := .not (.all [.atom 0, .all [.atom 1, .atom 2]])
    let ask : Nat → StateM Bool Bool := fun _ state => (state, !state)
    c.normalize = some n ∧
      (n.evaluateM (recorded ask)).run [] true = (c.evaluateM (recorded ask)).run [] true ∧
      (c.evaluateM (recorded ask)).run [] true = ((true, [0, 1]), true) ∧
      (c.meaning? fun a => some (a != 2)) = some (n.evaluate (· != 2)) := by
  intro c n ask
  have hn : c.normalize = some n := by decide
  have hfilled : c.Filled := by simp [c, Filled, FilledList]
  obtain ⟨hmeaning, hquestions⟩ := normalize_preserves_meaning c
  obtain ⟨n', hn', hsame⟩ := hquestions hfilled
  have heq : n' = n := Option.some_inj.mp (hn'.symm.trans hn)
  rw [heq] at hsame
  exact ⟨hn, congrArg (fun run => run [] true) (hsame (StateM Bool) ask).2, rfl,
    (hmeaning (· != 2)).2 n hn⟩

theorem normalize_of_canonical {c : Condition α} (h : c.Canonical) : c.normalize = some c := by
  induction c, h using Canonical.induction with
  | atom a => rfl
  | not c hnot hc ih =>
    rw [normalize, ih, Option.map_some]
    cases c with
    | atom a => rfl
    | connect k cs => rfl
    | not d => cases hnot
  | connect k a b ha hb iha ihb =>
    have hoperands : normalizeList [a, b] = [a, b] := by
      rw [normalizeList, iha, normalizeList, ihb, normalizeList]
    rw [normalize, hoperands, pairAll?, pair, pair]

theorem normalize_not_not (c : Condition α) : (not (not c)).normalize = c.normalize := by
  rw [normalize, normalize]
  cases hc : c.normalize with
  | none => rfl
  | some n => rw [Option.map_some, Option.map_some, negate_negate (canonical_of_normalize hc)]

/-- Normal forms are canonical, and a condition is its own normal form exactly when it is canonical.
So normalizing again changes nothing, every canonical condition is a normal form, and a double
negation leaves no trace. -/
theorem normal_forms_are_fixed_points (c : Condition α) :
    (∀ n, c.normalize = some n → n.Canonical) ∧
      (c.normalize = some c ↔ c.Canonical) ∧
      (c.normalize.bind normalize = c.normalize) ∧
      ((∃ d : Condition α, d.normalize = some c) ↔ c.Canonical) ∧
      (not (not c)).normalize = c.normalize := by
  have himage : ∀ n, c.normalize = some n → n.Canonical := fun n hn => canonical_of_normalize hn
  refine ⟨himage, ⟨himage c, normalize_of_canonical⟩, ?_, ⟨?_, ?_⟩, normalize_not_not c⟩
  · cases hc : c.normalize with
    | none => rfl
    | some n => rw [Option.bind_some, normalize_of_canonical (himage n hc)]
  · rintro ⟨d, hd⟩
    exact canonical_of_normalize hd
  · intro hcanonical
    exact ⟨c, normalize_of_canonical hcanonical⟩

/-- A negation that only shows once the compounds around it are gone. -/
theorem hidden_negation_has_fixed_point :
    let c : Condition Nat := .not (.any [.all [], .all [.not (.any [.atom 0, .atom 1, .atom 2])]])
    let n : Condition Nat := .any [.atom 0, .any [.atom 1, .atom 2]]
    c.normalize = some n ∧ n.Canonical ∧ n.normalize = some n := by
  intro c n
  have hn : c.normalize = some n := by decide
  have hcanonical : n.Canonical := (normal_forms_are_fixed_points c).1 n hn
  exact ⟨hn, hcanonical, (normal_forms_are_fixed_points n).2.1.mpr hcanonical⟩

end Condition

end ConditionalStyles
