import ConditionalStyles.Condition.Query
import ConditionalStyles.Proofs.Condition.Canonical
import Mathlib.Data.List.ReduceOption

/-!
The atoms of conditions. A normal form has the atoms of its condition in the same order, as often,
and negated where they were; there is none exactly when there is no atom. So all that is left after
a replacement are the images of the atoms that it accepts.
-/
namespace ConditionalStyles.Condition

variable {α β : Type}

mutual

/-- The atoms from left to right, each with whether it is negated, all in all. -/
def polarities (negated : Bool) : Condition α → List (α × Bool)
  | atom a => [(a, negated)]
  | not c => polarities (!negated) c
  | connect _ cs => polaritiesList negated cs

def polaritiesList (negated : Bool) : List (Condition α) → List (α × Bool)
  | [] => []
  | c :: cs => polarities negated c ++ polaritiesList negated cs

end

mutual

theorem map_fst_polarities (negated : Bool) :
    (c : Condition α) → (c.polarities negated).map Prod.fst = c.atoms
  | atom _ => rfl
  | not c => by rw [polarities, atoms, map_fst_polarities (!negated) c]
  | connect _ cs => by rw [polarities, atoms, map_fst_polaritiesList negated cs]

theorem map_fst_polaritiesList (negated : Bool) :
    (cs : List (Condition α)) → (polaritiesList negated cs).map Prod.fst = atomsList cs
  | [] => rfl
  | c :: cs => by
    rw [polaritiesList, atomsList, List.map_append, map_fst_polarities negated c,
      map_fst_polaritiesList negated cs]

end

theorem polarities_negate (negated : Bool) (c : Condition α) :
    c.negate.polarities negated = c.polarities !negated := by
  cases c with
  | atom a => rfl
  | connect k cs => rfl
  | not d => rw [negate, polarities, Bool.not_not]

theorem polarities_pair (negated : Bool) (k : Connective) (c : Condition α)
    (ds : List (Condition α)) :
    (pair k c ds).polarities negated = polaritiesList negated (c :: ds) := by
  induction ds generalizing c with
  | nil => rw [pair, polaritiesList, polaritiesList, List.append_nil]
  | cons d ds ih =>
    have hpair : polaritiesList negated [c, pair k d ds] =
        c.polarities negated ++ (pair k d ds).polarities negated := by
      rw [polaritiesList, polaritiesList, polaritiesList, List.append_nil]
    rw [pair, polarities, hpair, ih d]
    rfl

mutual

/-- Dropping, pairing and cancelling neither lose nor move an atom, and leave it as it was negated:
what drops out has none. -/
theorem flatMap_polarities_normalize (negated : Bool) :
    (c : Condition α) →
      c.normalize.toList.flatMap (polarities negated) = c.polarities negated
  | atom _ => rfl
  | not c => by
    rw [normalize, polarities, ← flatMap_polarities_normalize (!negated) c]
    cases c.normalize with
    | none => rfl
    | some n =>
      simp only [Option.map_some, Option.toList_some, List.flatMap_singleton, polarities_negate]
  | connect k cs => by
    rw [normalize, polarities, ← polaritiesList_normalizeList negated cs]
    cases normalizeList cs with
    | nil => rfl
    | cons d ds =>
      simp only [pairAll?, Option.toList_some, List.flatMap_singleton, polarities_pair]

theorem polaritiesList_normalizeList (negated : Bool) :
    (cs : List (Condition α)) →
      polaritiesList negated (normalizeList cs) = polaritiesList negated cs
  | [] => rfl
  | c :: cs => by
    have hhead := flatMap_polarities_normalize negated c
    have htail := polaritiesList_normalizeList negated cs
    rw [normalizeList, polaritiesList, ← hhead, ← htail]
    cases c.normalize with
    | none => rfl
    | some n => rw [Option.toList_some, List.flatMap_singleton, polaritiesList]

end

theorem polarities_of_normalize {c n : Condition α} (h : c.normalize = some n) (negated : Bool) :
    n.polarities negated = c.polarities negated := by
  have hsame := flatMap_polarities_normalize negated c
  rwa [h, Option.toList_some, List.flatMap_singleton] at hsame

theorem atoms_of_normalize {c n : Condition α} (h : c.normalize = some n) : n.atoms = c.atoms := by
  rw [← map_fst_polarities false n, polarities_of_normalize h, map_fst_polarities]

theorem Canonical.atoms_ne_nil {c : Condition α} (h : c.Canonical) : c.atoms ≠ [] := by
  induction c, h using Canonical.induction with
  | atom a => exact List.cons_ne_nil a []
  | not c hnot hc ih => exact ih
  | connect k a b ha hb iha ihb => exact List.append_ne_nil_of_left_ne_nil iha _

theorem normalize_eq_none_iff (c : Condition α) : c.normalize = none ↔ c.atoms = [] := by
  constructor
  · intro h
    rw [← map_fst_polarities false c, ← flatMap_polarities_normalize, h]
    rfl
  · intro h
    cases hn : c.normalize with
    | none => rfl
    | some n =>
      have hatoms : n.atoms = [] := (atoms_of_normalize hn).trans h
      exact absurd hatoms (canonical_of_normalize hn).atoms_ne_nil

mutual

theorem atoms_resolve (f : α → Option β) :
    (c : Condition α) → (c.resolve f).atoms = c.atoms.filterMap f
  | atom a => by
    rw [resolve, atoms]
    cases hf : f a with
    | none => simp [never, atoms, atomsList, hf]
    | some b => simp [atoms, hf]
  | not c => by rw [resolve, atoms, atoms, atoms_resolve f c]
  | connect _ cs => by rw [resolve, atoms, atoms, atomsList_resolveList f cs]

theorem atomsList_resolveList (f : α → Option β) :
    (cs : List (Condition α)) → atomsList (resolveList f cs) = (atomsList cs).filterMap f
  | [] => rfl
  | c :: cs => by
    rw [resolveList, atomsList, atomsList, List.filterMap_append, atoms_resolve f c,
      atomsList_resolveList f cs]

end

/-- Nothing is left of a condition exactly when all of its atoms are rejected. -/
theorem normalize_resolve_eq_none_iff (f : α → Option β) (c : Condition α) :
    (c.resolve f).normalize = none ↔ ∀ a ∈ c.atoms, f a = none := by
  rw [normalize_eq_none_iff, atoms_resolve, List.filterMap_eq_nil_iff]

theorem atoms_of_normalize_resolve {f : α → Option β} {c : Condition α} {n : Condition β}
    (h : (c.resolve f).normalize = some n) : n.atoms = c.atoms.filterMap f := by
  rw [atoms_of_normalize h, atoms_resolve]

section Questions

variable {m : Type → Type} [Monad m] [LawfulMonad m]

mutual

/-- A replacement asks about the atoms one by one, from left to right, and keeps the answers that
accept them. -/
theorem atoms_resolveM (ask : α → m (Option β)) :
    (c : Condition α) → atoms <$> c.resolveM ask = List.reduceOption <$> c.atoms.mapM ask
  | atom a => by
    simp only [resolveM, atoms, List.mapM_cons, List.mapM_nil, map_bind, pure_bind, map_pure]
    refine bind_congr ?_
    intro answer
    cases answer with
    | none => simp [never, atoms, atomsList]
    | some b => simp [atoms]
  | not c => by
    rw [atoms, ← atoms_resolveM ask c, resolveM, bind_pure_comp, Functor.map_map]
    rfl
  | connect k cs => by
    rw [atoms, ← atomsList_resolveListM ask cs, resolveM, bind_pure_comp, Functor.map_map]
    rfl

theorem atomsList_resolveListM (ask : α → m (Option β)) :
    (cs : List (Condition α)) →
      atomsList <$> resolveListM ask cs = List.reduceOption <$> (atomsList cs).mapM ask
  | [] => by simp [resolveListM, atomsList]
  | c :: cs => by
    have hhead := atoms_resolveM ask c
    have htail := atomsList_resolveListM ask cs
    calc atomsList <$> resolveListM ask (c :: cs)
        = (do
            let first ← atoms <$> c.resolveM ask
            let rest ← atomsList <$> resolveListM ask cs
            return first ++ rest) := by
          simp [resolveListM, atomsList]
      _ = List.reduceOption <$> (atomsList (c :: cs)).mapM ask := by
          rw [hhead, htail, atomsList, List.mapM_append]
          simp [List.reduceOption_append]

end

end Questions

/-- Normalizing keeps every atom, and so does a replacement that is normalized afterwards with those
that it accepts: in order and with repetitions. Nothing is left exactly when no atom is there, or
none is accepted. Where questions decide about the atoms, whatever they do besides, there is one for
each atom, from left to right. -/
theorem normal_forms_keep_accepted_atoms (c : Condition α) (f : α → Option β) :
    (c.resolve f).atoms = c.atoms.filterMap f ∧
      (c.normalize = none ↔ c.atoms = []) ∧
      (∀ n, c.normalize = some n → n.atoms = c.atoms) ∧
      ((c.resolve f).normalize = none ↔ ∀ a ∈ c.atoms, f a = none) ∧
      (∀ n, (c.resolve f).normalize = some n → n.atoms = c.atoms.filterMap f) ∧
      ∀ (m : Type → Type) [Monad m] [LawfulMonad m] (ask : α → m (Option β)),
        atoms <$> c.resolveM ask = List.reduceOption <$> c.atoms.mapM ask := by
  refine ⟨atoms_resolve f c, normalize_eq_none_iff c, ?_, normalize_resolve_eq_none_iff f c, ?_, ?_⟩
  · intro n hn
    exact atoms_of_normalize hn
  · intro n hn
    exact atoms_of_normalize_resolve hn
  · intro m _ _ ask
    exact atoms_resolveM ask c

/-- An atom that occurs twice, once under two negations, next to one that is rejected: by its name,
or because it is the second one to be asked about. -/
theorem normal_forms_keep_repeated_atom :
    let c : Condition Nat := .all [.atom 0, .not (.any [.all [], .atom 1]), .not (.not (.atom 0))]
    let f : Nat → Option Nat := fun a => if a = 1 then none else some (a + 10)
    let ask : Nat → StateM (List Nat) (Option Nat) :=
      fun a asked => (if asked.length = 1 then none else some (a + 10), asked ++ [a])
    let n : Condition Nat := .all [.atom 0, .all [.not (.atom 1), .atom 0]]
    let d : Condition Nat := .all [.atom 10, .atom 10]
    (c.normalize = some n ∧ n.atoms = c.atoms) ∧
      ((c.resolve f).normalize = some d ∧ d.atoms = c.atoms.filterMap f) ∧
      (c.resolve fun _ => (none : Option Nat)).normalize = none ∧
      (atoms <$> c.resolveM ask).run [] = ([10, 10], [0, 1, 0]) := by
  intro c f ask n d
  obtain ⟨-, -, hkept, -, haccepted, hasked⟩ := normal_forms_keep_accepted_atoms c f
  obtain ⟨-, -, -, hrejected, -⟩ :=
    normal_forms_keep_accepted_atoms c fun _ => (none : Option Nat)
  have hn : c.normalize = some n := by decide
  have hd : (c.resolve f).normalize = some d := by decide
  refine ⟨⟨hn, hkept n hn⟩, ⟨hd, haccepted d hd⟩, hrejected.mpr fun _ _ => rfl, ?_⟩
  exact congrArg (fun run => run []) (hasked (StateM (List Nat)) ask)

end ConditionalStyles.Condition
