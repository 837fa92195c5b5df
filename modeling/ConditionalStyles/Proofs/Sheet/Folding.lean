import ConditionalStyles.Proofs.Condition.Canonical
import ConditionalStyles.Sheet
import Mathlib.Data.List.Forall2

/-!
Sheets of conditions and of their normal forms. A sheet pairs the operands of a compound from the
right, as the normal form does, and passes a negation on to them. So a condition in which every
compound has an operand is compiled like its normal form.
-/
namespace ConditionalStyles.Sheet

/-- The conditions are compiled alike, whatever they are named and whether they are negated. -/
def Interchangeable (c d : Condition Scope) : Prop :=
  ∀ id negated, ofCondition id negated c = ofCondition id negated d

theorem ofCondition_negate (id : String) (negated : Bool) (c : Condition Scope) :
    ofCondition id negated c.negate = ofCondition id (!negated) c := by
  cases c with
  | atom scope => rfl
  | connect k cs => rfl
  | not d => rw [Condition.negate, ofCondition, Bool.not_not]

/-- Operands that were paired are compiled like those that were not. -/
theorem ofCondition_pair (id : String) (negated : Bool) (k : Connective) (c : Condition Scope)
    (ds : List (Condition Scope)) :
    ofCondition id negated (c.pair k ds) = ofOperands id negated k (c :: ds) := by
  induction ds generalizing c id with
  | nil => rw [Condition.pair, ofOperands]
  | cons d ds ih =>
    rw [Condition.pair, ofCondition, ofOperands, ofOperands, ofOperands, ih]

theorem ofOperands_congr {cs ds : List (Condition Scope)} (h : List.Forall₂ Interchangeable cs ds)
    (id : String) (negated : Bool) (k : Connective) :
    ofOperands id negated k cs = ofOperands id negated k ds := by
  induction h generalizing id with
  | nil => rfl
  | @cons c d cs ds hhead htail ih =>
    cases htail with
    | nil => exact hhead id negated
    | cons _ _ => rw [ofOperands, ofOperands, hhead, ih]

mutual

theorem exists_interchangeable_of_filled :
    {c : Condition Scope} → c.Filled → ∃ n, c.normalize = some n ∧ Interchangeable n c
  | .atom scope, _ => ⟨.atom scope, rfl, fun _ _ => rfl⟩
  | .not c, h => by
    have hc : c.Filled := h
    obtain ⟨n, hn, hsame⟩ := exists_interchangeable_of_filled hc
    refine ⟨n.negate, by rw [Condition.normalize, hn, Option.map_some], ?_⟩
    intro id negated
    rw [ofCondition_negate, hsame, ofCondition]
  | .connect k cs, h => by
    have hlist := forall₂_interchangeable_of_filled h.2
    cases hcs : Condition.normalizeList cs with
    | nil =>
      -- As many operands remain as there were.
      rw [hcs] at hlist
      exact absurd (List.forall₂_nil_left_iff.mp hlist) h.1
    | cons d ds =>
      refine ⟨d.pair k ds, by rw [Condition.normalize, hcs, Condition.pairAll?], ?_⟩
      intro id negated
      rw [ofCondition_pair, ← hcs, ofOperands_congr hlist, ofCondition]

theorem forall₂_interchangeable_of_filled :
    {cs : List (Condition Scope)} → Condition.FilledList cs →
      List.Forall₂ Interchangeable (Condition.normalizeList cs) cs
  | [], _ => List.Forall₂.nil
  | c :: cs, h => by
    obtain ⟨n, hn, hsame⟩ := exists_interchangeable_of_filled h.1
    rw [Condition.normalizeList, hn]
    exact List.Forall₂.cons hsame (forall₂_interchangeable_of_filled h.2)

end

theorem ofHooks_congr {hooks others : List (String × Condition Scope)}
    (h : List.Forall₂ (fun hook other => other.1 = hook.1 ∧ Interchangeable other.2 hook.2) hooks
      others) :
    ofHooks others = ofHooks hooks := by
  induction h with
  | nil => rfl
  | @cons hook other hooks others hhead htail ih =>
    obtain ⟨hid, hsame⟩ := hhead
    rw [ofHooks, ofHooks, hid, hsame, ih]

/-- Every hook keeps its name and takes the normal form of its condition. -/
theorem exists_normal_hooks {hooks : List (String × Condition Scope)}
    (h : ∀ hook ∈ hooks, hook.2.Filled) :
    ∃ normal : List (String × Condition Scope),
      List.Forall₂ (fun hook form => (form.1 = hook.1 ∧ hook.2.normalize = some form.2) ∧
        Interchangeable form.2 hook.2) hooks normal := by
  induction hooks with
  | nil => exact ⟨[], List.Forall₂.nil⟩
  | cons hook hooks ih =>
    rw [List.forall_mem_cons] at h
    obtain ⟨n, hn, hsame⟩ := exists_interchangeable_of_filled h.1
    obtain ⟨normal, hnormal⟩ := ih h.2
    exact ⟨(hook.1, n) :: normal, List.Forall₂.cons ⟨⟨rfl, hn⟩, hsame⟩ hnormal⟩

/-- Where every compound has an operand, the conditions have normal forms, and the style sheet of
the conditions is that of their normal forms, character by character. -/
theorem compiles_like_normal_forms (hooks : List (String × Condition Scope))
    (h : ∀ hook ∈ hooks, hook.2.Filled) :
    ∃ normal : List (String × Condition Scope),
      List.Forall₂ (fun hook form => form.1 = hook.1 ∧ hook.2.normalize = some form.2)
        hooks normal ∧
      ∀ readable : Bool,
        (ofHooks normal).text (.ofReadable readable) =
          (ofHooks hooks).text (.ofReadable readable) := by
  obtain ⟨normal, hnormal⟩ := exists_normal_hooks h
  have hforms := hnormal.imp fun _ _ hboth => hboth.1
  have hsheet : ofHooks normal = ofHooks hooks :=
    ofHooks_congr (hnormal.imp fun _ _ hboth => ⟨hboth.1.1, hboth.2⟩)
  refine ⟨normal, hforms, ?_⟩
  intro readable
  rw [hsheet]

/-- A disjunction of three under a negation that a compound of one hides: all three are negated, and
the last two are paired. -/
theorem compiles_like_normal_form_of_hidden_negation :
    let a : Condition Scope := .atom (.selector "&:hover")
    let b : Condition Scope := .atom (.atRule "@media print")
    let c : Condition Scope := .any [.not (.all [.not (.not (.any [a, b, .not a]))])]
    let n : Condition Scope := .not (.any [a, .any [b, .not a]])
    c.normalize = some n ∧
      (ofHooks [("x", n)]).text .compact = (ofHooks [("x", c)]).text .compact ∧
      (ofHooks [("x", c)]).rules.length = 3 := by
  intro a b c n
  have hn : c.normalize = some n := by decide
  have hfilled : ∀ hook ∈ [("x", c)], hook.2.Filled := by
    simp [a, b, c, Condition.Filled, Condition.FilledList]
  obtain ⟨normal, hforms, hsame⟩ := compiles_like_normal_forms [("x", c)] hfilled
  obtain ⟨form, rest, ⟨hid, hform⟩, hrest, rfl⟩ := List.forall₂_cons_left_iff.mp hforms
  obtain rfl := List.forall₂_nil_left_iff.mp hrest
  have hsecond : form.2 = n := Option.some_inj.mp (hform.symm.trans hn)
  have heq : form = ("x", n) := Prod.ext hid hsecond
  rw [heq] at hsame
  exact ⟨hn, hsame false, rfl⟩

end ConditionalStyles.Sheet
