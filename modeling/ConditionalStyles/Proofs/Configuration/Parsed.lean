import ConditionalStyles.Configuration.Reader
import ConditionalStyles.Proofs.Condition.Decoding
import ConditionalStyles.Proofs.OrderedMap

/-!
What readers return. A property that holds of whatever a reader returns is put together from its
parts as the reader is, and a loop keeps what each of its rounds keeps. So every scope in a
configuration that was loaded, and in a condition that was decoded, was made from a text: conditions
are decoded by trying one form after the other, but each atom was accepted as an atom in the end.
-/
namespace ConditionalStyles

namespace Json.Reader

variable {α β σ : Type}

/-- Whatever the reader returns has the property. -/
def Ensures (p : Reader α) (P : α → Prop) : Prop := ∀ s a rest, p s = .ok (a, rest) → P a

variable {P : α → Prop} {p : Reader α}

theorem ensures_pure {a : α} (h : P a) : (pure a : Reader α).Ensures P := by
  rintro s b rest hb
  cases hb
  exact h

theorem ensures_fail (fault : Fault) : (fail fault : Reader α).Ensures P := by
  rintro s a rest ha
  cases ha

theorem Ensures.bind {Q : β → Prop} {f : α → Reader β} (h : p.Ensures P)
    (hf : ∀ a, P a → (f a).Ensures Q) : (p >>= f).Ensures Q := by
  intro s b rest hb
  cases hp : p s with
  | error fault =>
    rw [bind_error hp] at hb
    cases hb
  | ok result =>
    obtain ⟨a, middle⟩ := result
    rw [bind_ok hp] at hb
    exact hf a (h s a middle hp) middle b rest hb

theorem ensures_bind {Q : β → Prop} {f : α → Reader β} (hf : ∀ a, (f a).Ensures Q) :
    (p >>= f).Ensures Q :=
  Ensures.bind (P := fun _ => True) (fun _ _ _ _ => trivial) fun a _ => hf a

/-- What was found is only reported. -/
theorem ensures_wrongType (wanted : Wanted) : (wrongType wanted : Reader α).Ensures P := by
  unfold wrongType
  repeat' first
    | exact ensures_fail _
    | refine ensures_bind fun _ => ?_
    | split

/-- What one round of a loop keeps, the loop keeps. -/
theorem ensures_fieldsFrom {P : σ → Prop} {field : σ → Reader σ}
    (hfield : ∀ state, P state → (field state).Ensures P) (rounds : Nat) (first : Bool) (state : σ)
    (hstate : P state) : (fieldsFrom field rounds first state).Ensures P := by
  induction rounds generalizing first state with
  | zero => exact ensures_fail _
  | succ rounds ih =>
    refine ensures_bind fun another => ?_
    split
    · exact (hfield state hstate).bind fun next hnext => ih false next hnext
    · exact ensures_pure hstate

theorem ensures_fields {P : σ → Prop} {field : σ → Reader σ} {start : σ}
    (hfield : ∀ state, P state → (field state).Ensures P) (hstart : P start) :
    (fields field start).Ensures P :=
  ensures_bind fun _ => (ensures_fieldsFrom hfield _ true start hstart).bind fun _ hstate =>
    ensures_bind fun _ => ensures_pure hstate

theorem Ensures.run {text : String} {a : α} (h : p.Ensures P) (hrun : p.run text = .ok a) :
    P a := by
  unfold Reader.run at hrun
  cases hp : p text.toList with
  | error fault =>
    rw [hp] at hrun
    cases hrun
  | ok result =>
    obtain ⟨b, rest⟩ := result
    rw [hp] at hrun
    change (if (rest.dropWhile isBlank).isEmpty then Except.ok b else _) = _ at hrun
    split at hrun
    · cases hrun
      exact h _ _ _ hp
    · cases hrun

end Json.Reader

open Json Json.Reader

theorem Scope.parsed_of_ofJson? {v : Value} {scope : Scope} (h : ofJson? v = some scope) :
    scope.Parsed := by
  obtain ⟨s, -, hs⟩ := Option.bind_eq_some_iff.mp h
  exact ⟨s, hs⟩

namespace Condition

variable {α : Type} {atom? : Value → Option α}

mutual

/-- Whichever form a value was decoded by, its atoms were accepted as atoms. -/
theorem exists_value_of_mem_atoms : (c : Condition α) → {v : Value} → ofJson? atom? v = some c →
    ∀ a ∈ c.atoms, ∃ w, atom? w = some a
  | atom a, v, h => by
    rcases ofJson?_cases h with ⟨_, _, _, _, _, hc, _⟩ | ⟨_, _, _, _, hc, _⟩ | ⟨b, hc, hb⟩
    · cases hc
    · cases hc
    · cases hc
      intro b hmem
      obtain rfl := List.mem_singleton.mp hmem
      exact ⟨v, hb⟩
  | not c, v, h => by
    rcases ofJson?_cases h with ⟨_, _, _, _, _, hc, _⟩ | ⟨_, _, _, _, hc, _, hd⟩ | ⟨_, hc, _⟩
    · cases hc
    · cases hc
      exact exists_value_of_mem_atoms c hd
    · cases hc
  | connect k cs, v, h => by
    rcases ofJson?_cases h with ⟨_, _, _, _, _, hc, _, hcs⟩ | ⟨_, _, _, _, hc, _⟩ | ⟨_, hc, _⟩
    · cases hc
      exact exists_value_of_mem_atomsList cs hcs
    · cases hc
    · cases hc

theorem exists_value_of_mem_atomsList : (cs : List (Condition α)) → {items : List Value} →
    List.Forall₂ (fun item c => ofJson? atom? item = some c) items cs →
      ∀ a ∈ atomsList cs, ∃ w, atom? w = some a
  | [], _, _ => fun _ hmem => nomatch hmem
  | c :: cs, _, .cons hitem hitems => by
    rw [atomsList, List.forall_mem_append]
    exact ⟨exists_value_of_mem_atoms c hitem, exists_value_of_mem_atomsList cs hitems⟩

end

/-- Every scope of the condition was made from a text. -/
def Parsed (c : Condition Scope) : Prop := ∀ scope ∈ c.atoms, scope.Parsed

theorem ensures_reader (depth : Nat) : (reader Scope.ofJson? depth).Ensures Parsed := by
  refine ensures_bind fun v => ?_
  split
  · next c hc =>
    refine ensures_pure fun scope hscope => ?_
    obtain ⟨w, hw⟩ := exists_value_of_mem_atoms c hc scope hscope
    exact Scope.parsed_of_ofJson? hw
  · exact ensures_fail _

end Condition

namespace Configuration

/-- Every scope of a hook was made from a text. -/
def Parsed (hooks : OrderedMap (Condition Scope)) : Prop :=
  ∀ name definition, hooks.get? name = some definition → definition.Parsed

theorem parsed_empty : Parsed ∅ := by
  intro name definition h
  cases h

theorem Parsed.insert {hooks : OrderedMap (Condition Scope)} (h : Parsed hooks) (name : String)
    {definition : Condition Scope} (hdefinition : definition.Parsed) :
    Parsed (hooks.insert name definition) := by
  intro other found hfound
  rw [OrderedMap.get?_insert] at hfound
  split at hfound
  · cases hfound
    exact hdefinition
  · exact h other found hfound

theorem ensures_hookField (hooks : OrderedMap (Condition Scope)) (h : Parsed hooks) :
    (hookField hooks).Ensures Parsed :=
  ensures_bind fun name => ensures_bind fun _ =>
    (Condition.ensures_reader _).bind fun _ hdefinition => ensures_pure (h.insert name hdefinition)

theorem ensures_hooksReader : hooksReader.Ensures Parsed := by
  refine ensures_bind fun next => ?_
  split
  · exact ensures_fail _
  · exact ensures_bind fun _ => ensures_fields ensures_hookField parsed_empty
  · exact ensures_wrongType _

/-- The hooks that were met so far, if there were any. -/
def Draft.Parsed (draft : Draft) : Prop := ∀ hooks ∈ draft.hooks, Configuration.Parsed hooks

theorem ensures_once {α : Type} {P : α → Prop} {reader : Reader α} (h : reader.Ensures P)
    (name : String) (earlier : Option α) : (once name earlier reader).Ensures P := by
  unfold once
  split
  · exact ensures_fail _
  · exact ensures_bind fun _ => h

theorem ensures_field (draft : Draft) (h : draft.Parsed) : draft.field.Ensures Draft.Parsed := by
  refine ensures_bind fun name => ?_
  split
  · refine (ensures_once ensures_hooksReader name draft.hooks).bind fun hooks hhooks => ?_
    refine ensures_pure fun found hfound => ?_
    cases hfound
    exact hhooks
  · -- The other fields leave the hooks alone.
    repeat' first
      | exact ensures_pure h
      | refine ensures_bind fun _ => ?_
      | split

theorem ensures_element {α : Type} {P : α → Prop} {reader : Reader α} {default : α}
    (h : reader.Ensures P) (hdefault : P default) (first : Bool) :
    (element first reader default).Ensures P := by
  refine ensures_bind fun another => ?_
  split
  · exact h
  · exact ensures_pure hdefault

theorem ensures_configuration : reader.Ensures fun config => Parsed config.hooks := by
  refine ensures_bind fun next => ?_
  split
  · exact ensures_fail _
  · refine ensures_bind fun _ => ?_
    refine (ensures_element ensures_hooksReader parsed_empty true).bind fun hooks hhooks => ?_
    repeat' first
      | exact ensures_pure hhooks
      | refine ensures_bind fun _ => ?_
  · have hstart : Draft.Parsed {} := fun hooks hhooks => nomatch hhooks
    refine ensures_bind fun _ => ?_
    refine (ensures_fields ensures_field hstart).bind fun draft hdraft => ensures_pure ?_
    cases hhooks : draft.hooks with
    | none =>
      rw [Draft.config, hhooks]
      exact parsed_empty
    | some hooks =>
      rw [Draft.config, hhooks]
      exact hdraft hooks hhooks
  · exact ensures_wrongType _

theorem parsed_load {text : String} {config : Configuration} (h : load text = .ok config) :
    Parsed config.hooks := by
  unfold load at h
  cases hread : reader.run text with
  | error fault =>
    rw [hread] at h
    cases h
  | ok found =>
    rw [hread] at h
    cases h
    exact ensures_configuration.run hread

end Configuration

end ConditionalStyles
