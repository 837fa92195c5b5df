import ConditionalStyles.Condition.Normal

/-!
Truth values of normal forms. A condition whose atoms were replaced and which was normalized then
has the truth value of the condition in which the rejected atoms are absent operands.
-/
namespace ConditionalStyles

/-- The truth value of a compound of two operands. -/
def Connective.join (k : Connective) (a b : Bool) : Bool := if a = k.neutral then b else !k.neutral

/-- The truth value of the operands that are present, if there are any. -/
def Connective.joinAll? (k : Connective) (values : List Bool) : Option Bool :=
  if values.isEmpty then none else some (values.foldr k.join k.neutral)

theorem Connective.join_neutral (k : Connective) (a : Bool) : k.join a k.neutral = a := by
  cases k <;> cases a <;> rfl

namespace Condition

variable {α β : Type}

mutual

/-- The truth value of a condition with absent atoms. Compounds take the operands that are present;
a condition in which nothing is present is absent itself. -/
def meaning? (truth : α → Option Bool) : Condition α → Option Bool
  | atom a => truth a
  | not c => (meaning? truth c).map (!·)
  | connect k cs => k.joinAll? (meanings truth cs)

def meanings (truth : α → Option Bool) : List (Condition α) → List Bool
  | [] => []
  | c :: cs =>
    match meaning? truth c with
    | some value => value :: meanings truth cs
    | none => meanings truth cs

end

theorem evaluateList_eq_foldr (holds : α → Bool) (k : Connective) (cs : List (Condition α)) :
    evaluateList holds k cs = (cs.map (evaluate holds)).foldr k.join k.neutral := by
  induction cs with
  | nil => rfl
  | cons c cs ih => rw [evaluateList, ih, List.map_cons, List.foldr_cons, Connective.join]

theorem evaluateList_singleton (holds : α → Bool) (k : Connective) (c : Condition α) :
    evaluateList holds k [c] = c.evaluate holds := by
  rw [evaluateList_eq_foldr, List.map_singleton, List.foldr_cons, List.foldr_nil, k.join_neutral]

theorem evaluate_connect_pair (holds : α → Bool) (k : Connective) (a b : Condition α) :
    (connect k [a, b]).evaluate holds = k.join (a.evaluate holds) (b.evaluate holds) := by
  rw [evaluate, evaluateList, evaluateList_singleton, Connective.join]

theorem evaluate_negate (holds : α → Bool) (c : Condition α) :
    c.negate.evaluate holds = !c.evaluate holds := by
  cases c with
  | atom a => rfl
  | connect k cs => rfl
  | not d => rw [negate, evaluate, Bool.not_not]

theorem evaluate_pair (holds : α → Bool) (k : Connective) (c : Condition α)
    (ds : List (Condition α)) :
    (pair k c ds).evaluate holds = ((c :: ds).map (evaluate holds)).foldr k.join k.neutral := by
  induction ds generalizing c with
  | nil => rw [pair, List.map_singleton, List.foldr_cons, List.foldr_nil, k.join_neutral]
  | cons d ds ih =>
    rw [pair, evaluate, evaluateList_eq_foldr, List.map_cons, List.map_singleton, List.foldr_cons,
      List.foldr_cons, List.foldr_nil, k.join_neutral, ih]
    rfl

theorem evaluate_pairAll? (holds : α → Bool) (k : Connective) (cs : List (Condition α)) :
    (pairAll? k cs).map (evaluate holds) = k.joinAll? (cs.map (evaluate holds)) := by
  cases cs with
  | nil => rfl
  | cons c cs => exact congrArg some (evaluate_pair holds k c cs)

mutual

/-- Rejected atoms count as absent operands. -/
theorem evaluate_normalize_resolve (f : α → Option β) (holds : β → Bool) :
    (c : Condition α) →
      (c.resolve f).normalize.map (evaluate holds) = c.meaning? fun a => (f a).map holds
  | atom a => by
    rw [resolve, meaning?]
    cases f a <;> rfl
  | not c => by
    rw [resolve, normalize, meaning?, ← evaluate_normalize_resolve f holds c]
    cases (c.resolve f).normalize with
    | none => rfl
    | some n => exact congrArg some (evaluate_negate holds n)
  | connect k cs => by
    rw [resolve, normalize, meaning?, evaluate_pairAll?, evaluate_normalizeList_resolveList]

theorem evaluate_normalizeList_resolveList (f : α → Option β) (holds : β → Bool) :
    (cs : List (Condition α)) →
      (normalizeList (resolveList f cs)).map (evaluate holds) =
        meanings (fun a => (f a).map holds) cs
  | [] => rfl
  | c :: cs => by
    rw [resolveList, normalizeList, meanings, ← evaluate_normalize_resolve f holds c,
      ← evaluate_normalizeList_resolveList f holds cs]
    cases (c.resolve f).normalize <;> rfl

end

end Condition

end ConditionalStyles
