/-!
Conditions: atoms under negation, conjunction and disjunction of any number of operands, with their
atoms, their truth value and the replacement of atoms.
-/
namespace ConditionalStyles

/-- How operands are joined. -/
inductive Connective where
  | all
  | any
  deriving DecidableEq, Repr

namespace Connective

def dual : Connective → Connective
  | all => any
  | any => all

/-- The truth value of no operands; an operand with the other truth value decides the compound. -/
def neutral : Connective → Bool
  | all => true
  | any => false

/-- What a connective becomes when a negation is pushed to its operands. -/
def under (negated : Bool) (k : Connective) : Connective := if negated then k.dual else k

end Connective

inductive Condition (α : Type) where
  | atom (a : α)
  | not (operand : Condition α)
  | connect (k : Connective) (operands : List (Condition α))
  deriving Repr

namespace Condition

variable {α β : Type}

abbrev all (operands : List (Condition α)) : Condition α := connect .all operands

abbrev any (operands : List (Condition α)) : Condition α := connect .any operands

def isAtom : Condition α → Bool
  | atom _ => true
  | not _ => false
  | connect _ _ => false

/-- No operand can hold. -/
def never : Condition α := any []

mutual

def decEq [DecidableEq α] : (c d : Condition α) → Decidable (c = d)
  | atom a, atom b => decidable_of_iff (a = b) (by simp)
  | not c, not d =>
    match decEq c d with
    | isTrue h => isTrue (by rw [h])
    | isFalse h => isFalse (by simpa using h)
  | connect k cs, connect l ds =>
    match decEqList cs ds with
    | isTrue h => decidable_of_iff (k = l) (by simp [h])
    | isFalse h => isFalse (by simp [h])
  | atom _, not _ => isFalse (by simp)
  | atom _, connect _ _ => isFalse (by simp)
  | not _, atom _ => isFalse (by simp)
  | not _, connect _ _ => isFalse (by simp)
  | connect _ _, atom _ => isFalse (by simp)
  | connect _ _, not _ => isFalse (by simp)

def decEqList [DecidableEq α] : (cs ds : List (Condition α)) → Decidable (cs = ds)
  | [], [] => isTrue rfl
  | [], _ :: _ => isFalse (by simp)
  | _ :: _, [] => isFalse (by simp)
  | c :: cs, d :: ds =>
    match decEq c d, decEqList cs ds with
    | isTrue h, isTrue t => isTrue (by rw [h, t])
    | isFalse h, _ => isFalse (by simp [h])
    | _, isFalse t => isFalse (by simp [t])

end

instance [DecidableEq α] : DecidableEq (Condition α) := decEq

mutual

/-- From left to right, repetitions included. -/
def atoms : Condition α → List α
  | atom a => [a]
  | not c => atoms c
  | connect _ cs => atomsList cs

def atomsList : List (Condition α) → List α
  | [] => []
  | c :: cs => atoms c ++ atomsList cs

end

mutual

def evaluate (holds : α → Bool) : Condition α → Bool
  | atom a => holds a
  | not c => !evaluate holds c
  | connect k cs => evaluateList holds k cs

def evaluateList (holds : α → Bool) (k : Connective) : List (Condition α) → Bool
  | [] => k.neutral
  | c :: cs => if evaluate holds c = k.neutral then evaluateList holds k cs else !k.neutral

end

mutual

/-- Replaces every atom; an atom without replacement can never hold. -/
def resolve (replace : α → Option β) : Condition α → Condition β
  | atom a =>
    match replace a with
    | some b => atom b
    | none => never
  | not c => not (resolve replace c)
  | connect k cs => connect k (resolveList replace cs)

def resolveList (replace : α → Option β) : List (Condition α) → List (Condition β)
  | [] => []
  | c :: cs => resolve replace c :: resolveList replace cs

end

def map (f : α → β) (c : Condition α) : Condition β := c.resolve fun a => some (f a)

theorem resolveList_eq_map (replace : α → Option β) (cs : List (Condition α)) :
    resolveList replace cs = cs.map (resolve replace) := by
  induction cs with
  | nil => rfl
  | cons c cs ih => simp [resolveList, ih]

end Condition

end ConditionalStyles
