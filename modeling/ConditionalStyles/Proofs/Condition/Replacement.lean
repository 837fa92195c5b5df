import ConditionalStyles.Proofs.Condition.Canonical
import Mathlib.Data.List.Basic

/-!
Replacement of atoms in conditions that are normalized afterwards. What replacement leaves of a
condition depends on its normal form only: operands that were paired before they lost atoms are
paired as if the atoms had not been there.
-/
namespace ConditionalStyles.Condition

variable {α β : Type}

theorem negate_negate {c : Condition α} (h : c.Canonical) : c.negate.negate = c := by
  cases c with
  | atom a => rfl
  | connect k cs => rfl
  | not d =>
    cases d with
    | atom a => rfl
    | connect k cs => rfl
    | not e => cases h.1

theorem normalize_negate_resolve (f : α → Option β) (c : Condition α) :
    (c.negate.resolve f).normalize = (c.resolve f).normalize.map negate := by
  cases c with
  | atom a => rfl
  | connect k cs => rfl
  | not d =>
    change (d.resolve f).normalize = ((d.resolve f).normalize.map negate).map negate
    cases hd : (d.resolve f).normalize with
    | none => rfl
    | some n =>
      have hn : n.Canonical := canonical_of_normalize hd
      simp only [Option.map_some, negate_negate hn]

theorem pairAll?_cons (k : Connective) (c : Condition α) (cs : List (Condition α)) :
    pairAll? k (c :: cs) = some ((pairAll? k cs).elim c fun d => connect k [c, d]) := by
  cases cs <;> rfl

/-- Operands at the end may have been paired before, if any were there. -/
theorem pairAll?_append_pairAll? (k : Connective) (cs ds : List (Condition α)) :
    pairAll? k (cs ++ (pairAll? k ds).toList) = pairAll? k (cs ++ ds) := by
  induction cs with
  | nil => cases ds <;> rfl
  | cons c cs ih => rw [List.cons_append, pairAll?_cons, ih, ← pairAll?_cons, List.cons_append]

/-- Folding operands commutes with replacing their atoms, whatever drops out on the way. -/
theorem normalize_pair_resolve (f : α → Option β) (k : Connective) (c : Condition α)
    (ds : List (Condition α)) :
    ((pair k c ds).resolve f).normalize =
      pairAll? k ((c :: ds).filterMap fun d => (d.resolve f).normalize) := by
  induction ds generalizing c with
  | nil =>
    rw [pair]
    cases hc : (c.resolve f).normalize with
    | none => simp [hc, pairAll?]
    | some n => simp [hc, pairAll?, pair]
  | cons d ds ih =>
    have hpair : ((pair k c (d :: ds)).resolve f).normalize =
        pairAll? k ([c, pair k d ds].filterMap fun e => (e.resolve f).normalize) := by
      rw [pair, resolve, normalize, normalizeList_eq_filterMap, resolveList_eq_map,
        List.filterMap_map]
      rfl
    rw [hpair]
    simp only [List.filterMap_eq_flatMap_toList, List.flatMap_cons, List.flatMap_nil,
      List.append_nil] at ih ⊢
    rw [ih d]
    exact pairAll?_append_pairAll? k _ _

theorem normalize_pairAll?_resolve (f : α → Option β) (k : Connective) (cs : List (Condition α)) :
    (pairAll? k cs).bind (fun c => (c.resolve f).normalize) =
      pairAll? k (cs.filterMap fun c => (c.resolve f).normalize) := by
  cases cs with
  | nil => rfl
  | cons c cs => exact normalize_pair_resolve f k c cs

mutual

/-- Normalizing before the replacement changes nothing. -/
theorem normalize_resolve (f : α → Option β) :
    (c : Condition α) →
      (c.resolve f).normalize = c.normalize.bind fun n => (n.resolve f).normalize
  | atom a => rfl
  | not c => by
    rw [resolve, normalize, normalize_resolve f c, normalize]
    cases c.normalize with
    | none => rfl
    | some n => exact (normalize_negate_resolve f n).symm
  | connect k cs => by
    rw [resolve, normalize, normalizeList_resolveList f cs, normalize, normalize_pairAll?_resolve]

theorem normalizeList_resolveList (f : α → Option β) :
    (cs : List (Condition α)) →
      normalizeList (resolveList f cs) =
        (normalizeList cs).filterMap fun n => (n.resolve f).normalize
  | [] => rfl
  | c :: cs => by
    rw [resolveList, normalizeList, normalizeList, normalize_resolve f c,
      normalizeList_resolveList f cs]
    cases c.normalize with
    | none => rfl
    | some n =>
      rw [Option.bind_some, List.filterMap_cons]
      cases (n.resolve f).normalize <;> rfl

end

end ConditionalStyles.Condition
