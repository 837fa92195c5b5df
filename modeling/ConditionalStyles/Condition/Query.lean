import ConditionalStyles.Condition.Basic

/-!
Evaluation and replacement by questions that have an effect. Atoms are asked about from left to
right, and evaluation asks no further than needed. Questions without effect give the truth value and
the replacement of the condition itself.
-/
namespace ConditionalStyles.Condition

variable {α β : Type} {m : Type → Type} [Monad m]

mutual

def evaluateM (ask : α → m Bool) : Condition α → m Bool
  | atom a => ask a
  | not c => do
    let value ← evaluateM ask c
    return !value
  | connect k cs => evaluateListM ask k cs

def evaluateListM (ask : α → m Bool) (k : Connective) : List (Condition α) → m Bool
  | [] => return k.neutral
  | c :: cs => do
    let value ← evaluateM ask c
    if value = k.neutral then evaluateListM ask k cs else return !k.neutral

end

mutual

def resolveM (ask : α → m (Option β)) : Condition α → m (Condition β)
  | atom a => do
    match ← ask a with
    | some b => return atom b
    | none => return never
  | not c => do
    let d ← resolveM ask c
    return not d
  | connect k cs => do
    let ds ← resolveListM ask cs
    return connect k ds

def resolveListM (ask : α → m (Option β)) : List (Condition α) → m (List (Condition β))
  | [] => return []
  | c :: cs => do
    let d ← resolveM ask c
    let ds ← resolveListM ask cs
    return d :: ds

end

variable [LawfulMonad m]

mutual

theorem evaluateM_pure (holds : α → Bool) :
    (c : Condition α) → evaluateM (fun a => (pure (holds a) : m Bool)) c = pure (c.evaluate holds)
  | atom _ => rfl
  | not c => by simp [evaluateM, evaluate, evaluateM_pure holds c]
  | connect k cs => by simp [evaluateM, evaluate, evaluateListM_pure holds k cs]

theorem evaluateListM_pure (holds : α → Bool) (k : Connective) :
    (cs : List (Condition α)) →
      evaluateListM (fun a => (pure (holds a) : m Bool)) k cs = pure (evaluateList holds k cs)
  | [] => rfl
  | c :: cs => by
    simp only [evaluateListM, evaluateList, evaluateM_pure holds c, pure_bind,
      evaluateListM_pure holds k cs]
    split <;> rfl

end

mutual

theorem resolveM_pure (replace : α → Option β) :
    (c : Condition α) →
      resolveM (fun a => (pure (replace a) : m (Option β))) c = pure (c.resolve replace)
  | atom a => by cases h : replace a <;> simp [resolveM, resolve, h]
  | not c => by simp [resolveM, resolve, resolveM_pure replace c]
  | connect k cs => by simp [resolveM, resolve, resolveListM_pure replace cs]

theorem resolveListM_pure (replace : α → Option β) :
    (cs : List (Condition α)) →
      resolveListM (fun a => (pure (replace a) : m (Option β))) cs = pure (resolveList replace cs)
  | [] => rfl
  | c :: cs => by
    simp [resolveListM, resolveList, resolveM_pure replace c, resolveListM_pure replace cs]

end

end ConditionalStyles.Condition
