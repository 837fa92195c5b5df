import ConditionalStyles.Proofs.Cascade.Names
import ConditionalStyles.Proofs.Condition.Canonical
import ConditionalStyles.Proofs.Style.Writes

/-!
Truth values of the toggles that a style declares for itself. An element has the custom properties
of its style on top of those that it gets from elsewhere. A normal form is wired to the toggle of a
hook or to one with a given name; each compound inside it is declared under that name and the
letters that lead to it. Where every hook shows a truth value and the compounds are declared, the
toggle of every condition inside the normal form shows the value of that condition.
-/
namespace ConditionalStyles

open Text Cascade

namespace Cascade

def isCustom (name : String) : Bool := "--".toList.isPrefixOf name.toList

theorem isCustom_property (c : Channel) : isCustom c.property = true := by
  simp [isCustom, Channel.property_toList]

/-- The custom properties of a style that have a text replace what was declared before. -/
def Environment.withStyle (env : Environment) (style : Style) : Environment := fun name =>
  if isCustom name then ((style.get? name).bind (ValueText.generic name)).or (env name)
  else env name

theorem Environment.withStyle_congr (env : Environment) {style style' : Style} {name : String}
    (h : style'.get? name = style.get? name) :
    env.withStyle style' name = env.withStyle style name := by
  simp only [withStyle, h]

theorem Environment.declares_withStyle {env : Environment} {style : Style} {s : Spacing}
    {d : Declaration} (h : style.get? d.channel.property = some (.string (d.signal.text s))) :
    (env.withStyle style).Declares s d := by
  refine ⟨"", blank_nil, ?_⟩
  rw [withStyle, if_pos (isCustom_property d.channel), h, Option.bind_some, ValueText.generic,
    Option.some_or, String.empty_append]

/-- A channel of a toggle that is named below the given name. -/
def IsChannelBelow (base name : String) : Prop :=
  ∃ c : Channel, Below base c.toggle ∧ name = c.property

theorem nameable_of_below {base name : String} (hbase : Nameable base.toList)
    (h : Below base name) : Nameable name.toList := by
  obtain ⟨path, hpath, hname⟩ := h
  rw [hname]
  apply nameable_append hbase
  apply nameable_of_forall_ne
  intro c hc
  rcases hpath c hc with rfl | rfl <;> decide

end Cascade

/-- The toggle of a compound of two operands. -/
structure Compound where
  name : String
  connective : Connective
  first : Toggle
  second : Toggle
  deriving DecidableEq, Repr

namespace Compound

def channel (node : Compound) (on : Bool) : Channel := ⟨node.name, on⟩

def declarations (node : Compound) : List Declaration :=
  Toggle.wire node.name node.connective node.first node.second

theorem mem_declarations (node : Compound) (on : Bool) :
    ⟨node.channel on, Toggle.signal node.connective node.first node.second on⟩ ∈
      node.declarations := by
  cases on
  · exact List.mem_cons_self
  · exact List.mem_cons_of_mem _ List.mem_cons_self

theorem eq_channel_of_mem_declarations {node : Compound} {d : Declaration}
    (h : d ∈ node.declarations) : d.channel = node.channel d.channel.on := by
  have htoggle : d.channel.toggle = node.name := Toggle.toggle_of_mem_wire h
  rw [channel, ← htoggle]

/-- Compounds with different names declare every channel once. -/
theorem unambiguous_declarations {nodes : List Compound} (h : (nodes.map name).Nodup) :
    Declaration.Unambiguous (nodes.flatMap declarations) := by
  intro d hd e he hchannel
  obtain ⟨node, hnode, hd⟩ := List.mem_flatMap.mp hd
  obtain ⟨other, hother, he⟩ := List.mem_flatMap.mp he
  have hname : other.name = node.name := by
    rw [← Toggle.toggle_of_mem_wire he, ← Toggle.toggle_of_mem_wire hd, hchannel]
  obtain rfl : other = node := List.inj_on_of_nodup_map h hother hnode hname
  exact Toggle.unambiguous_wire _ _ _ _ d hd e he hchannel

end Compound

namespace Condition

/-- The toggle of a normal form: the one of its hook, or one with the given name, with the channels
exchanged under a negation. -/
def toggleUnder (name : String) : Condition String → Toggle
  | atom id => ⟨id, false⟩
  | not (atom id) => ⟨id, true⟩
  | not _ => ⟨name, true⟩
  | connect _ _ => ⟨name, false⟩

mutual

/-- The compounds of a normal form. A letter is put after the name for each operand on the way, `A`
for the first one and `B` for the second; negations put none. -/
def compounds (name : String) : Condition String → List Compound
  | atom _ => []
  | not c => compounds name c
  | connect k cs => operandCompounds name k cs

def operandCompounds (name : String) (k : Connective) : List (Condition String) → List Compound
  | [a, b] =>
    compounds (name ++ "A") a ++ compounds (name ++ "B") b ++
      [⟨name, k, a.toggleUnder (name ++ "A"), b.toggleUnder (name ++ "B")⟩]
  | _ => []

end

mutual

/-- The conditions inside a normal form, each with the name that its compounds are declared
under. -/
def parts (name : String) : Condition String → List (String × Condition String)
  | atom id => [(name, atom id)]
  | not c => (name, not c) :: parts name c
  | connect k cs => (name, connect k cs) :: operandParts name cs

def operandParts (name : String) : List (Condition String) → List (String × Condition String)
  | [a, b] => parts (name ++ "A") a ++ parts (name ++ "B") b
  | _ => []

end

variable {c : Condition String} {name : String}

theorem self_mem_parts (name : String) (c : Condition String) : (name, c) ∈ parts name c := by
  cases c <;> exact List.mem_cons_self

theorem toggleUnder_not (h : c.isNegation = false) (name : String) :
    c.not.toggleUnder name = (c.toggleUnder name).swap := by
  cases c with
  | atom id => rfl
  | connect k cs => rfl
  | not d => cases h

/-- A normal form is wired through its compounds. -/
theorem wiring_of_canonical (h : c.Canonical) (name : String) :
    Wiring.ofCondition name c =
      ⟨c.toggleUnder name, (c.compounds name).flatMap Compound.declarations⟩ := by
  induction c, h using Canonical.induction generalizing name with
  | atom id => rfl
  | not c hnot hc ih =>
    rw [Wiring.ofCondition, ih, toggleUnder_not hnot]
    rfl
  | connect k a b ha hb iha ihb =>
    rw [Wiring.ofCondition, Wiring.ofOperands, Wiring.ofOperands, iha, ihb]
    simp only [toggleUnder, compounds, operandCompounds, List.flatMap_append,
      List.flatMap_singleton, Compound.declarations]

theorem below_of_mem_compounds (h : c.Canonical) :
    ∀ node ∈ c.compounds name, Below name node.name := by
  induction c, h using Canonical.induction generalizing name with
  | atom id =>
    intro node hnode
    cases hnode
  | not c hnot hc ih => exact ih
  | connect k a b ha hb iha ihb =>
    intro node hnode
    rw [compounds, operandCompounds, List.mem_append, List.mem_append, List.mem_singleton] at hnode
    rcases hnode with (hfirst | hsecond) | rfl
    · exact below_of_first (iha node hfirst)
    · exact below_of_second (ihb node hsecond)
    · exact below_self name

/-- Within a condition, every compound has a name of its own. -/
theorem nodup_compounds (h : c.Canonical) : ((c.compounds name).map Compound.name).Nodup := by
  induction c, h using Canonical.induction generalizing name with
  | atom id => exact List.nodup_nil
  | not c hnot hc ih => exact ih
  | connect k a b ha hb iha ihb =>
    rw [compounds, operandCompounds, List.map_append, List.map_append]
    refine nodup_below ?_ ?_ iha ihb
    · intro other hother
      obtain ⟨node, hnode, rfl⟩ := List.mem_map.mp hother
      exact below_of_mem_compounds ha node hnode
    · intro other hother
      obtain ⟨node, hnode, rfl⟩ := List.mem_map.mp hother
      exact below_of_mem_compounds hb node hnode

theorem below_of_mem_declarations (h : c.Canonical) {d : Declaration}
    (hd : d ∈ (c.compounds name).flatMap Compound.declarations) : Below name d.channel.toggle := by
  obtain ⟨node, hnode, hd⟩ := List.mem_flatMap.mp hd
  rw [Toggle.toggle_of_mem_wire hd]
  exact below_of_mem_compounds h node hnode

theorem mem_compounds_connect (k : Connective) (a b : Condition String) :
    ∃ node ∈ (connect k [a, b]).compounds name, node.name = name :=
  ⟨_, List.mem_append_right _ (List.mem_singleton.mpr rfl), rfl⟩

/-- The toggle of a condition is that of a hook or of the outermost compound. -/
theorem toggleUnder_cases (h : c.Canonical) (name : String) :
    (c.toggleUnder name).id ∈ c.atoms ∨
      (c.toggleUnder name).id = name ∧ ∃ node ∈ c.compounds name, node.name = name := by
  induction c, h using Canonical.induction with
  | atom id => exact Or.inl List.mem_cons_self
  | not c hnot hc ih =>
    rw [toggleUnder_not hnot]
    exact ih
  | connect k a b ha hb => exact Or.inr ⟨rfl, mem_compounds_connect k a b⟩

theorem nameable_toggleUnder (h : c.Canonical) (hname : Nameable name.toList)
    (hatoms : ∀ id ∈ c.atoms, Nameable id.toList) :
    Nameable (c.toggleUnder name).id.toList := by
  rcases toggleUnder_cases h name with hatom | ⟨hid, -⟩
  · exact hatoms _ hatom
  · rw [hid]
    exact hname

/-- Where hooks show their truth values and the compounds are declared, the toggle of every
condition inside shows the value of that condition. -/
theorem shows_parts (h : c.Canonical) {s : Spacing} (hs : s.Blank) {env : Environment}
    {truth : String → Bool} (hname : Nameable name.toList)
    (hatoms : ∀ id ∈ c.atoms, Nameable id.toList ∧ env.Shows { id } (truth id))
    (hdeclares : ∀ d ∈ (c.compounds name).flatMap Compound.declarations, env.Declares s d) :
    ∀ part ∈ c.parts name, env.Shows (part.2.toggleUnder part.1) (part.2.evaluate truth) := by
  induction c, h using Canonical.induction generalizing name with
  | atom id =>
    intro part hpart
    rw [parts, List.mem_singleton] at hpart
    rw [hpart]
    exact (hatoms id List.mem_cons_self).2
  | not c hnot hc ih =>
    have hinside := ih hname hatoms hdeclares
    rw [parts, List.forall_mem_cons]
    refine ⟨?_, hinside⟩
    have hself : env.Shows (c.toggleUnder name) (c.evaluate truth) :=
      hinside (name, c) (self_mem_parts name c)
    rw [toggleUnder_not hnot, evaluate]
    exact hself.swap
  | connect k a b ha hb iha ihb =>
    have hnameA : Nameable (name ++ "A").toList :=
      nameable_of_below hname (below_of_first (below_self _))
    have hnameB : Nameable (name ++ "B").toList :=
      nameable_of_below hname (below_of_second (below_self _))
    have hatomsA : ∀ id ∈ a.atoms, Nameable id.toList ∧ env.Shows { id } (truth id) :=
      fun id hid => hatoms id (List.mem_append_left _ hid)
    have hatomsB : ∀ id ∈ b.atoms, Nameable id.toList ∧ env.Shows { id } (truth id) :=
      fun id hid => hatoms id (List.mem_append_right _ (List.mem_append_left _ hid))
    rw [compounds, operandCompounds, List.flatMap_append, List.flatMap_append,
      List.forall_mem_append, List.forall_mem_append, List.flatMap_singleton] at hdeclares
    obtain ⟨⟨hdeclaresA, hdeclaresB⟩, hwire⟩ := hdeclares
    have hfirst := iha hnameA hatomsA hdeclaresA
    have hsecond := ihb hnameB hatomsB hdeclaresB
    have hselfA : env.Shows (a.toggleUnder (name ++ "A")) (a.evaluate truth) :=
      hfirst (name ++ "A", a) (self_mem_parts _ a)
    have hselfB : env.Shows (b.toggleUnder (name ++ "B")) (b.evaluate truth) :=
      hsecond (name ++ "B", b) (self_mem_parts _ b)
    rw [parts, operandParts, List.forall_mem_cons, List.forall_mem_append]
    refine ⟨?_, hfirst, hsecond⟩
    rw [evaluate_connect_pair]
    exact Environment.shows_wire hs hwire
      (nameable_toggleUnder ha hnameA fun id hid => (hatomsA id hid).1)
      (nameable_toggleUnder hb hnameB fun id hid => (hatomsB id hid).1) hselfA hselfB

end Condition

end ConditionalStyles
