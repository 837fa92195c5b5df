import ConditionalStyles.Proofs.Cascade.Reference

/-!
Environments of declared properties, and what texts resolve to in them. A reference stands for the
value of its property, or for its fallback when that value is invalid; a text is invalid when one
of its references is invalid and brings no fallback that is valid. Resolution is a relation, so that
properties which refer to themselves resolve to nothing; otherwise its outcome is unique.
-/
namespace ConditionalStyles.Cascade

open Text

section Overwriting

variable {α : Type}

/-- Later entries of a name replace earlier ones, and what was there before. -/
def overwrite (values : String → Option α) (entries : List (String × α)) : String → Option α :=
  entries.foldl (fun values entry name => if name = entry.1 then some entry.2 else values name)
    values

theorem overwrite_append (values : String → Option α) (a b : List (String × α)) :
    overwrite values (a ++ b) = overwrite (overwrite values a) b :=
  List.foldl_append

theorem overwrite_of_forall_ne (values : String → Option α) {entries : List (String × α)}
    {name : String} (h : ∀ entry ∈ entries, entry.1 ≠ name) :
    overwrite values entries name = values name := by
  induction entries generalizing values with
  | nil => rfl
  | cons entry rest ih =>
    have hne : name ≠ entry.1 := fun heq => h entry List.mem_cons_self heq.symm
    have hrest := ih (fun name => if name = entry.1 then some entry.2 else values name)
      fun other hother => h other (List.mem_cons_of_mem entry hother)
    rw [if_neg hne] at hrest
    exact hrest

/-- Where all entries of a name agree, they give its value. -/
theorem overwrite_of_forall_eq (values : String → Option α) {entries : List (String × α)}
    {name : String} {value : α} (hmem : (name, value) ∈ entries)
    (h : ∀ entry ∈ entries, entry.1 = name → entry.2 = value) :
    overwrite values entries name = some value := by
  induction entries generalizing values with
  | nil => cases hmem
  | cons entry rest ih =>
    have hrest : ∀ other ∈ rest, other.1 = name → other.2 = value :=
      fun other hother => h other (List.mem_cons_of_mem entry hother)
    by_cases hlater : (name, value) ∈ rest
    · exact ih _ hlater hrest
    · have hentry : entry = (name, value) := by
        rcases List.mem_cons.mp hmem with heq | hin
        · exact heq.symm
        · exact absurd hin hlater
      have hne : ∀ other ∈ rest, other.1 ≠ name := by
        intro other hother heq
        have hvalue := hrest other hother heq
        exact hlater (by rw [← heq, ← hvalue]; exact hother)
      have hlast := overwrite_of_forall_ne
        (fun name => if name = entry.1 then some entry.2 else values name) hne
      rw [if_pos (by rw [hentry]), hentry] at hlast
      rw [hentry]
      exact hlast

/-- What is read after a sequence of writes, if each of them changes the value of one name. -/
theorem foldl_eq_overwrite {σ : Type} {read : σ → String → Option α}
    {write : σ → String × α → σ}
    (h : ∀ state entry, read (write state entry) =
      fun name => if name = entry.1 then some entry.2 else read state name)
    (state : σ) (entries : List (String × α)) :
    read (entries.foldl write state) = overwrite (read state) entries := by
  induction entries generalizing state with
  | nil => rfl
  | cons entry rest ih =>
    have hrest := ih (write state entry)
    rw [h] at hrest
    exact hrest

end Overwriting

/-- The texts that properties are declared with. -/
abbrev Environment := String → Option String

namespace Environment

def empty : Environment := fun _ => none

/-- A property that is declared as `initial` has no text, as if it were not declared. -/
def text? (env : Environment) (name : String) : Option (List Char) :=
  match env name with
  | some text => if trim text.toList = "initial".toList then none else some text.toList
  | none => none

end Environment

/-- What is resolved: a text, or the value of a property. -/
inductive Source where
  | text (cs : List Char)
  | property (name : String)

/-- `none` is the invalid value. -/
inductive Resolves (env : Environment) : Source → Option (List Char) → Prop
  | nil : Resolves env (.text []) (some [])
  | char {c : Char} {rest : List Char} {r : Option (List Char)}
      (href : reference? (c :: rest) = none) (hrest : Resolves env (.text rest) r) :
      Resolves env (.text (c :: rest)) (r.map (c :: ·))
  | value {cs rest v : List Char} {ref : Reference} {r : Option (List Char)}
      (href : reference? cs = some (ref, rest))
      (hvalue : Resolves env (.property ref.name) (some v))
      (hrest : Resolves env (.text rest) r) : Resolves env (.text cs) (r.map (v ++ ·))
  | fallback {cs rest f v : List Char} {ref : Reference} {r : Option (List Char)}
      (href : reference? cs = some (ref, rest)) (hvalue : Resolves env (.property ref.name) none)
      (hf : ref.fallback = some f) (hfallback : Resolves env (.text f) (some v))
      (hrest : Resolves env (.text rest) r) : Resolves env (.text cs) (r.map (v ++ ·))
  | invalid {cs rest : List Char} {ref : Reference} (href : reference? cs = some (ref, rest))
      (hvalue : Resolves env (.property ref.name) none)
      (hfallback : ∀ f, ref.fallback = some f → Resolves env (.text f) none) :
      Resolves env (.text cs) none
  | undeclared {name : String} (htext : env.text? name = none) :
      Resolves env (.property name) none
  | declared {name : String} {cs : List Char} {r : Option (List Char)}
      (htext : env.text? name = some cs) (hcs : Resolves env (.text cs) r) :
      Resolves env (.property name) r

namespace Resolves

variable {env : Environment}

/-- Texts and properties resolve to one outcome at most. -/
theorem unique {source : Source} {r r' : Option (List Char)} (h : Resolves env source r)
    (h' : Resolves env source r') : r = r' := by
  induction h generalizing r' with
  | nil =>
    cases h' with
    | nil => rfl
    | value href => cases href
    | fallback href => cases href
    | invalid href => cases href
  | char href hrest ih =>
    cases h' with
    | char href' hrest' => rw [ih hrest']
    | value href' => rw [href] at href'; cases href'
    | fallback href' => rw [href] at href'; cases href'
    | invalid href' => rw [href] at href'; cases href'
  | value href hvalue hrest ihvalue ihrest =>
    cases h' with
    | nil => cases href
    | char href' => rw [href] at href'; cases href'
    | value href' hvalue' hrest' =>
      rw [href] at href'
      cases href'
      have hv := ihvalue hvalue'
      cases hv
      rw [ihrest hrest']
    | fallback href' hvalue' =>
      rw [href] at href'
      cases href'
      cases ihvalue hvalue'
    | invalid href' hvalue' =>
      rw [href] at href'
      cases href'
      cases ihvalue hvalue'
  | fallback href hvalue hf hfallback hrest ihvalue ihfallback ihrest =>
    cases h' with
    | nil => cases href
    | char href' => rw [href] at href'; cases href'
    | value href' hvalue' =>
      rw [href] at href'
      cases href'
      cases ihvalue hvalue'
    | fallback href' hvalue' hf' hfallback' hrest' =>
      rw [href] at href'
      cases href'
      rw [hf] at hf'
      cases hf'
      have hv := ihfallback hfallback'
      cases hv
      rw [ihrest hrest']
    | invalid href' hvalue' hfallback' =>
      rw [href] at href'
      cases href'
      cases ihfallback (hfallback' _ hf)
  | invalid href hvalue hfallback ihvalue ihfallback =>
    cases h' with
    | nil => cases href
    | char href' => rw [href] at href'; cases href'
    | value href' hvalue' =>
      rw [href] at href'
      cases href'
      cases ihvalue hvalue'
    | fallback href' hvalue' hf' hfallback' =>
      rw [href] at href'
      cases href'
      cases ihfallback _ hf' hfallback'
    | invalid => rfl
  | undeclared htext =>
    cases h' with
    | undeclared => rfl
    | declared htext' => rw [htext] at htext'; cases htext'
  | declared htext hcs ih =>
    cases h' with
    | undeclared htext' => rw [htext] at htext'; cases htext'
    | declared htext' hcs' =>
      rw [htext] at htext'
      cases htext'
      exact ih hcs'

/-- Blanks in front of a text stay in front of what it resolves to. -/
theorem blank_append {b cs : List Char} {r : Option (List Char)} (hb : Blank b)
    (h : Resolves env (.text cs) r) : Resolves env (.text (b ++ cs)) (r.map (b ++ ·)) := by
  induction b with
  | nil => simpa using h
  | cons c rest ih =>
    have hrest := ih fun d hd => hb d (List.mem_cons_of_mem c hd)
    have hc : c ≠ 'v' := by
      rintro rfl
      exact absurd (hb 'v' List.mem_cons_self) (by decide)
    have hchar := char (reference?_of_head_ne hc (rest ++ cs)) hrest
    rw [Option.map_map] at hchar
    exact hchar

theorem blank {b : List Char} (hb : Blank b) : Resolves env (.text b) (some b) := by
  have h : Resolves env (.text (b ++ [])) (some (b ++ [])) := blank_append hb nil
  rwa [List.append_nil] at h

end Resolves

/-- Resolves as far as the given number of steps goes. -/
def resolveWithin (env : Environment) : Nat → Source → Option (Option (List Char))
  | 0, _ => none
  | steps + 1, .property name =>
    match env.text? name with
    | none => some none
    | some cs => resolveWithin env steps (.text cs)
  | _ + 1, .text [] => some (some [])
  | steps + 1, .text (c :: cs) =>
    match reference? (c :: cs) with
    | none => (resolveWithin env steps (.text cs)).map (Option.map (c :: ·))
    | some (ref, rest) =>
      match resolveWithin env steps (.property ref.name) with
      | none => none
      | some (some v) => (resolveWithin env steps (.text rest)).map (Option.map (v ++ ·))
      | some none =>
        match ref.fallback with
        | none => some none
        | some f =>
          match resolveWithin env steps (.text f) with
          | none => none
          | some none => some none
          | some (some v) => (resolveWithin env steps (.text rest)).map (Option.map (v ++ ·))

theorem Resolves.of_resolveWithin {env : Environment} {steps : Nat} {source : Source}
    {r : Option (List Char)} (h : resolveWithin env steps source = some r) :
    Resolves env source r := by
  induction steps generalizing source r with
  | zero => cases h
  | succ steps ih =>
    cases source with
    | property name =>
      simp only [resolveWithin] at h
      split at h
      · next htext =>
        cases h
        exact .undeclared htext
      · next cs htext => exact .declared htext (ih h)
    | text cs =>
      cases cs with
      | nil =>
        cases h
        exact .nil
      | cons c cs =>
        simp only [resolveWithin] at h
        split at h
        · next href =>
          obtain ⟨r', hr', rfl⟩ := Option.map_eq_some_iff.mp h
          exact .char href (ih hr')
        · next ref rest href =>
          split at h
          · cases h
          · next v hvalue =>
            obtain ⟨r', hr', rfl⟩ := Option.map_eq_some_iff.mp h
            exact .value href (ih hvalue) (ih hr')
          · next hvalue =>
            split at h
            · next hf =>
              cases h
              refine .invalid href (ih hvalue) ?_
              intro f hsome
              rw [hf] at hsome
              cases hsome
            · next f hf =>
              split at h
              · cases h
              · next hfallback =>
                cases h
                refine .invalid href (ih hvalue) ?_
                intro f' hsome
                rw [hf] at hsome
                cases hsome
                exact ih hfallback
              · next v hfallback =>
                obtain ⟨r', hr', rfl⟩ := Option.map_eq_some_iff.mp h
                exact .fallback href (ih hvalue) hf (ih hfallback) (ih hr')

end ConditionalStyles.Cascade
