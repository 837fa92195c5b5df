import ConditionalStyles.Proofs.Text.Trim

/-!
References inside values. A reference names a property and may bring a fallback, which is all that
follows the first comma; commas and closing parentheses count only outside of inner parentheses.
Texts with balanced parentheses can be put into a reference and are read back as they are.
-/
namespace ConditionalStyles.Cascade

open Text

/-- How many parentheses are open after a character. -/
def depthAfter (depth : Nat) (c : Char) : Nat :=
  if c = '(' then depth + 1 else if c = ')' then depth - 1 else depth

def depthAfterAll (depth : Nat) (cs : List Char) : Nat := cs.foldl depthAfter depth

/-- Splits a text at the first `stop` that stands outside of parentheses. -/
def splitAt? (stop : Char) : Nat → List Char → Option (List Char × List Char)
  | _, [] => none
  | depth, c :: rest =>
    if depth = 0 ∧ c = stop then some ([], rest)
    else (splitAt? stop (depthAfter depth c) rest).map fun parts => (c :: parts.1, parts.2)

structure Reference where
  name : String
  fallback : Option (List Char)
  deriving DecidableEq

def Reference.ofArguments (cs : List Char) : Reference :=
  match splitAt? ',' 0 cs with
  | some (name, fallback) => ⟨String.ofList (trim name), some fallback⟩
  | none => ⟨String.ofList (trim cs), none⟩

/-- The reference at the start of a text, and what follows it. -/
def reference? : List Char → Option (Reference × List Char)
  | 'v' :: 'a' :: 'r' :: '(' :: rest =>
    (splitAt? ')' 0 rest).map fun parts => (.ofArguments parts.1, parts.2)
  | _ => none

/-- Every parenthesis is closed, and none is closed that was not opened. -/
def Balanced (cs : List Char) : Prop := splitAt? ')' 0 cs = none ∧ depthAfterAll 0 cs = 0

instance (cs : List Char) : Decidable (Balanced cs) := inferInstanceAs (Decidable (_ ∧ _))

/-- A reference can spell the name: it ends where the name ends. -/
def Nameable (cs : List Char) : Prop := Balanced cs ∧ splitAt? ',' 0 cs = none

instance (cs : List Char) : Decidable (Nameable cs) := inferInstanceAs (Decidable (_ ∧ _))

theorem depthAfterAll_append (depth : Nat) (a b : List Char) :
    depthAfterAll depth (a ++ b) = depthAfterAll (depthAfterAll depth a) b :=
  List.foldl_append

theorem splitAt?_append {stop : Char} {depth : Nat} {a : List Char}
    (h : splitAt? stop depth a = none) (b : List Char) :
    splitAt? stop depth (a ++ b) =
      (splitAt? stop (depthAfterAll depth a) b).map fun parts => (a ++ parts.1, parts.2) := by
  induction a generalizing depth with
  | nil => simp [depthAfterAll]
  | cons c rest ih =>
    simp only [splitAt?] at h
    split at h
    · cases h
    · next hc =>
      have hrest : splitAt? stop (depthAfter depth c) rest = none := Option.map_eq_none_iff.mp h
      simp only [List.cons_append, splitAt?, if_neg hc, ih hrest, Option.map_map]
      rfl

/-- Without a closing parenthesis of their own, texts do not care how many are open around. -/
theorem splitAt?_close_add {depth : Nat} {cs : List Char}
    (h : splitAt? ')' depth cs = none) (outer : Nat) :
    splitAt? ')' (depth + outer) cs = none ∧
      depthAfterAll (depth + outer) cs = depthAfterAll depth cs + outer := by
  induction cs generalizing depth with
  | nil => simp [splitAt?, depthAfterAll]
  | cons c rest ih =>
    simp only [splitAt?] at h
    split at h
    · cases h
    · next hc =>
      have hrest : splitAt? ')' (depthAfter depth c) rest = none := Option.map_eq_none_iff.mp h
      have hdepth : depthAfter (depth + outer) c = depthAfter depth c + outer := by
        unfold depthAfter
        split
        · omega
        · split
          · next hclose =>
            have hpos : depth ≠ 0 := fun hzero => hc ⟨hzero, hclose⟩
            omega
          · rfl
      have houter : ¬ (depth + outer = 0 ∧ c = ')') := by
        rintro ⟨hzero, hclose⟩
        exact hc ⟨by omega, hclose⟩
      obtain ⟨hsplit, hall⟩ := ih hrest
      refine ⟨?_, ?_⟩
      · simp only [splitAt?, if_neg houter, hdepth, hsplit, Option.map_none]
      · simpa only [depthAfterAll, List.foldl_cons, hdepth] using hall

theorem balanced_nil : Balanced [] := ⟨rfl, rfl⟩

theorem balanced_append {a b : List Char} (ha : Balanced a) (hb : Balanced b) :
    Balanced (a ++ b) := by
  refine ⟨?_, ?_⟩
  · rw [splitAt?_append ha.1, ha.2, hb.1, Option.map_none]
  · rw [depthAfterAll_append, ha.2, hb.2]

theorem balanced_enclosed {a : List Char} (ha : Balanced a) :
    Balanced ('(' :: (a ++ [')'])) := by
  obtain ⟨hsplit, hdepth⟩ := splitAt?_close_add ha.1 1
  rw [Nat.zero_add] at hsplit hdepth
  rw [ha.2] at hdepth
  refine ⟨?_, ?_⟩
  · have hclose : splitAt? ')' 1 [')'] = none := by decide
    have hin : splitAt? ')' 1 (a ++ [')']) = none := by
      rw [splitAt?_append hsplit, hdepth, hclose, Option.map_none]
    have hopen : splitAt? ')' 0 ('(' :: (a ++ [')'])) =
        (splitAt? ')' 1 (a ++ [')'])).map fun parts => ('(' :: parts.1, parts.2) := rfl
    rw [hopen, hin, Option.map_none]
  · have hin : depthAfterAll 0 ('(' :: (a ++ [')'])) = depthAfterAll 1 (a ++ [')']) := rfl
    rw [hin, depthAfterAll_append, hdepth]
    decide

theorem splitAt?_of_forall_ne {stop : Char} {cs : List Char} (h : ∀ c ∈ cs, c ≠ stop)
    (depth : Nat) : splitAt? stop depth cs = none := by
  induction cs generalizing depth with
  | nil => rfl
  | cons c rest ih =>
    have hc : ¬ (depth = 0 ∧ c = stop) := fun hstop => h c List.mem_cons_self hstop.2
    have hrest := ih (fun d hd => h d (List.mem_cons_of_mem c hd)) (depthAfter depth c)
    simp only [splitAt?, if_neg hc, hrest, Option.map_none]

theorem balanced_of_forall_ne {cs : List Char} (h : ∀ c ∈ cs, c ≠ '(' ∧ c ≠ ')') :
    Balanced cs := by
  refine ⟨splitAt?_of_forall_ne (fun c hc => (h c hc).2) 0, ?_⟩
  induction cs with
  | nil => rfl
  | cons c rest ih =>
    obtain ⟨hopen, hclose⟩ := h c List.mem_cons_self
    have hc : depthAfter 0 c = 0 := by simp [depthAfter, hopen, hclose]
    have hrest := ih fun d hd => h d (List.mem_cons_of_mem c hd)
    simpa only [depthAfterAll, List.foldl_cons, hc] using hrest

theorem nameable_append {a b : List Char} (ha : Nameable a) (hb : Nameable b) :
    Nameable (a ++ b) := by
  refine ⟨balanced_append ha.1 hb.1, ?_⟩
  rw [splitAt?_append ha.2, ha.1.2, hb.2, Option.map_none]

theorem nameable_of_forall_ne {cs : List Char}
    (h : ∀ c ∈ cs, c ≠ '(' ∧ c ≠ ')' ∧ c ≠ ',') : Nameable cs :=
  ⟨balanced_of_forall_ne fun c hc => ⟨(h c hc).1, (h c hc).2.1⟩,
    splitAt?_of_forall_ne (fun c hc => (h c hc).2.2) 0⟩

theorem reference?_of_head_ne {c : Char} (h : c ≠ 'v') (rest : List Char) :
    reference? (c :: rest) = none := by
  unfold reference?
  split
  · next heq => exact absurd (List.cons.inj heq).1 h
  · rfl

private theorem splitAt?_close {args : List Char} (hargs : Balanced args) (rest : List Char) :
    splitAt? ')' 0 (args ++ ')' :: rest) = some (args, rest) := by
  rw [splitAt?_append hargs.1, hargs.2]
  simp [splitAt?]

/-- A reference without fallback is read back. -/
theorem reference?_name {name : List Char} (hname : Nameable name) (htrim : trim name = name)
    (rest : List Char) :
    reference? ('v' :: 'a' :: 'r' :: '(' :: (name ++ ')' :: rest)) =
      some (⟨String.ofList name, none⟩, rest) := by
  simp only [reference?, splitAt?_close hname.1, Option.map_some, Reference.ofArguments, hname.2,
    htrim]

/-- A reference with a fallback is read back, blanks before the fallback included. -/
theorem reference?_fallback {name fallback : List Char} (hname : Nameable name)
    (htrim : trim name = name) (hfallback : Balanced fallback) (rest : List Char) :
    reference? ('v' :: 'a' :: 'r' :: '(' :: (name ++ ',' :: (fallback ++ ')' :: rest))) =
      some (⟨String.ofList name, some fallback⟩, rest) := by
  have hcomma : Balanced [','] := by decide
  have hargs : Balanced (name ++ ',' :: fallback) :=
    balanced_append hname.1 (balanced_append hcomma hfallback)
  have hassoc : name ++ ',' :: (fallback ++ ')' :: rest) =
      (name ++ ',' :: fallback) ++ ')' :: rest := by simp
  have hsplit : splitAt? ',' 0 (name ++ ',' :: fallback) = some (name, fallback) := by
    rw [splitAt?_append hname.2, hname.1.2]
    simp [splitAt?]
  rw [hassoc]
  simp only [reference?, splitAt?_close hargs, Option.map_some, Reference.ofArguments, hsplit,
    htrim]

end ConditionalStyles.Cascade
