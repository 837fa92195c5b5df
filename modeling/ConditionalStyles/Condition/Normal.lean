import ConditionalStyles.Condition.Basic

/-!
Normal forms of conditions. Compounds without operands are absent and drop out of the compounds
around them; what remains is folded to the right into compounds of two operands, and no negation
stands directly under another.
-/
namespace ConditionalStyles.Condition

variable {α : Type}

/-- Negates, taking an outer negation off instead of adding a second one. -/
def negate : Condition α → Condition α
  | not c => c
  | atom a => not (atom a)
  | connect k cs => not (connect k cs)

/-- Folds operands to the right into compounds of two. -/
def pair (k : Connective) : Condition α → List (Condition α) → Condition α
  | c, [] => c
  | c, d :: ds => connect k [c, pair k d ds]

def pairAll? (k : Connective) : List (Condition α) → Option (Condition α)
  | [] => none
  | c :: cs => some (pair k c cs)

mutual

/-- There is no normal form when nothing remains. -/
def normalize : Condition α → Option (Condition α)
  | atom a => some (atom a)
  | not c => (normalize c).map negate
  | connect k cs => pairAll? k (normalizeList cs)

def normalizeList : List (Condition α) → List (Condition α)
  | [] => []
  | c :: cs =>
    match normalize c with
    | some d => d :: normalizeList cs
    | none => normalizeList cs

end

theorem normalizeList_eq_filterMap (cs : List (Condition α)) :
    normalizeList cs = cs.filterMap normalize := by
  induction cs with
  | nil => rfl
  | cons c cs ih =>
    cases h : normalize c with
    | none => simp [normalizeList, h, ih]
    | some d => simp [normalizeList, h, ih]

end ConditionalStyles.Condition
