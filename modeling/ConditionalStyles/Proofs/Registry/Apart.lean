import ConditionalStyles.Proofs.Identifier.Decoding
import ConditionalStyles.Proofs.Registry.Element
import ConditionalStyles.Proofs.Style.LocalToggles

/-!
Toggles of the style sheet and toggles of a style. Those of the style sheet are named after hooks,
and those that a style declares for itself after numbers. Unless the digest of a hook happens to be
spelled like a numbered name, the two kinds have no name in common; then no declaration of the style
hides one of the style sheet, and references lead from the style to the style sheet and never back.
-/
namespace ConditionalStyles

open Cascade

namespace Declaration

/-- One toggle is declared through a channel of another. -/
def DeclaredThrough (ds : List Declaration) (name other : String) : Prop :=
  ∃ d ∈ ds, d.channel.toggle = name ∧ ∃ c ∈ d.signal.channels, c.toggle = other

end Declaration

namespace Cascade

theorem Below.append {base name : String} (h : Below base name) {letter : String}
    (hletter : letter = "A" ∨ letter = "B") : Below base (name ++ letter) := by
  obtain ⟨path, hpath, hname⟩ := h
  refine ⟨path ++ letter.toList, ?_, by rw [String.toList_append, hname, List.append_assoc]⟩
  intro c hc
  rcases List.mem_append.mp hc with hleft | hright
  · exact hpath c hleft
  · rcases hletter with rfl | rfl
    · exact Or.inl (List.mem_singleton.mp hright)
    · exact Or.inr (List.mem_singleton.mp hright)

end Cascade

namespace Registry

variable {config : Configuration} {valueText : ValueText} {blocks : List Block}
  {name other : String}

/-- The declarations of the style sheet, for all elements and in scopes. -/
def sheetDeclarations (r : Registry) : List Declaration :=
  r.sheet.root ++ r.sheet.rules.flatMap Rule.body

/-- The declarations that a merge adds to the style for compounds. -/
def inlineDeclarations (r : Registry) (blocks : List Block) : List Declaration :=
  (r.styling.localCompounds (r.styling.changes blocks)).flatMap Compound.declarations

/-- The name is that of a hook or of an operand below it. -/
def IsSheetName (r : Registry) (name : String) : Prop := ∃ hook ∈ r.hooks, Below hook.id name

/-- The name is that of a compound in the merge. -/
def IsInlineName (r : Registry) (blocks : List Block) (name : String) : Prop :=
  Compound.IsNameIn (r.styling.localCompounds (r.styling.changes blocks)) name

theorem exists_node_of_mem_sheet {r : Registry} {d : Declaration} (h : d ∈ r.sheetDeclarations) :
    ∃ hook ∈ r.hooks, ∃ n : Sheet.Node, Below hook.id n.id ∧
      (d ∈ n.root ∨ ∃ rule ∈ n.rules, d ∈ rule.body) := by
  rw [sheetDeclarations, sheet, Sheet.ofHooks_eq_ofNodes] at h
  have hnode : ∃ n ∈ Sheet.hookNodes (r.hooks.map fun hook => (hook.id, hook.condition)),
      d ∈ n.root ∨ ∃ rule ∈ n.rules, d ∈ rule.body := by
    rcases List.mem_append.mp h with hroot | hrule
    · obtain ⟨n, hn, hd⟩ := List.mem_flatMap.mp hroot
      exact ⟨n, hn, Or.inl hd⟩
    · obtain ⟨rule, hrule, hd⟩ := List.mem_flatMap.mp hrule
      obtain ⟨n, hn, hrule⟩ := List.mem_flatMap.mp hrule
      exact ⟨n, hn, Or.inr ⟨rule, hrule, hd⟩⟩
  obtain ⟨n, hn, hd⟩ := hnode
  obtain ⟨entry, hentry, hn⟩ := List.mem_flatMap.mp hn
  obtain ⟨hook, hhook, rfl⟩ := List.mem_map.mp hentry
  exact ⟨hook, hhook, n, Sheet.below_of_mem_nodes n hn, hd⟩

theorem isSheetName_of_mem {r : Registry} {d : Declaration} (h : d ∈ r.sheetDeclarations) :
    r.IsSheetName d.channel.toggle := by
  obtain ⟨hook, hhook, n, hbelow, hin⟩ := exists_node_of_mem_sheet h
  have htoggle : d.channel.toggle = n.id := by
    rcases hin with hroot | ⟨rule, hrule, hbody⟩
    · exact Sheet.Node.toggle_of_mem_root hroot
    · exact Sheet.Node.toggle_of_mem_rules hrule hbody
  exact ⟨hook, hhook, htoggle ▸ hbelow⟩

theorem isInlineName_of_mem {r : Registry} {d : Declaration}
    (h : d ∈ r.inlineDeclarations blocks) : r.IsInlineName blocks d.channel.toggle := by
  obtain ⟨node, hnode, hd⟩ := List.mem_flatMap.mp h
  exact ⟨node, hnode, (Toggle.toggle_of_mem_wire hd).symm⟩

/-- A toggle of the style sheet refers to its operands, whose names are longer. -/
theorem operand_of_sheet {r : Registry}
    (h : Declaration.DeclaredThrough r.sheetDeclarations name other) :
    r.IsSheetName name ∧ r.IsSheetName other ∧ name.length < other.length := by
  obtain ⟨d, hd, rfl, c, hc, rfl⟩ := h
  obtain ⟨hook, hhook, n, hbelow, hin⟩ := exists_node_of_mem_sheet hd
  cases n with
  | leaf id negated scope =>
    exfalso
    have hnone : d.signal.channels = [] := by
      rcases hin with hroot | ⟨rule, hrule, hbody⟩
      · exact Sheet.channels_of_mem_settle hroot
      · rw [Sheet.Node.rules, List.mem_singleton] at hrule
        subst hrule
        exact Sheet.channels_of_mem_settle hbody
    rw [hnone] at hc
    cases hc
  | pair id k =>
    rcases hin with hroot | ⟨rule, hrule, -⟩
    · have htoggle : d.channel.toggle = id := Toggle.toggle_of_mem_wire hroot
      obtain ⟨letter, hletter, hoperand⟩ :
          ∃ letter, (letter = "A" ∨ letter = "B") ∧ c.toggle = id ++ letter := by
        rcases Sheet.toggle_of_mem_channels hroot hc with hfirst | hsecond
        · exact ⟨"A", Or.inl rfl, hfirst⟩
        · exact ⟨"B", Or.inr rfl, hsecond⟩
      have hlength : 0 < letter.length := by
        rcases hletter with rfl | rfl <;> decide
      rw [htoggle, hoperand]
      refine ⟨⟨hook, hhook, hbelow⟩, ⟨hook, hhook, hbelow.append hletter⟩, ?_⟩
      rw [String.length_append]
      omega
    · cases hrule

/-- A toggle of the style refers to hooks and to toggles of the style with longer names. -/
theorem operand_of_inline
    (h : Declaration.DeclaredThrough ((create config valueText).inlineDeclarations blocks) name
      other) :
    (create config valueText).IsInlineName blocks name ∧
      ((create config valueText).IsSheetName other ∨
        (create config valueText).IsInlineName blocks other ∧ name.length < other.length) := by
  obtain ⟨d, hd, rfl, c, hc, rfl⟩ := h
  have hname := isInlineName_of_mem hd
  obtain ⟨node, hnode, hd⟩ := List.mem_flatMap.mp hd
  have htoggle : d.channel.toggle = node.name := Toggle.toggle_of_mem_wire hd
  obtain ⟨t, ht, hoperand⟩ : ∃ t, (t = node.first ∨ t = node.second) ∧ c.toggle = t.id := by
    rcases Sheet.toggle_of_mem_channels hd hc with hfirst | hsecond
    · exact ⟨node.first, Or.inl rfl, hfirst⟩
    · exact ⟨node.second, Or.inr rfl, hsecond⟩
  rw [hoperand]
  rcases Styling.operands_of_mem_localCompounds hnode ht with ⟨name, hget⟩ | ⟨next, hnext, hid, hlt⟩
  · obtain ⟨hook, hhook, -, hid⟩ := exists_hook_of_get?_ids hget
    exact ⟨hname, Or.inl ⟨hook, hhook, hid ▸ below_self hook.id⟩⟩
  · refine ⟨hname, Or.inr ⟨⟨next, hnext, hid⟩, ?_⟩⟩
    rw [htoggle, ← hid]
    exact hlt

theorem get?_css_of_mem_inline {r : Registry} {d : Declaration}
    (h : d ∈ r.inlineDeclarations blocks)
    (hname : ∀ change ∈ r.styling.changes blocks, d.channel.property ∉ change.properties.names) :
    (r.css blocks).get? d.channel.property = some (.string (d.signal.text r.spacing)) := by
  obtain ⟨node, hnode, hd⟩ := List.mem_flatMap.mp h
  rw [Toggle.signal_of_mem_wire hd, Compound.text_signal]
  rw [Compound.eq_channel_of_mem_declarations hd] at hname ⊢
  exact Styling.get?_channel_of_unwritten hnode _ hname

/-- Next to the properties that blocks set, the style has the declarations of compounds and no
others. -/
theorem get?_css_iff_of_unwritten {r : Registry} {value : Json.Value}
    (hname : ∀ change ∈ r.styling.changes blocks, name ∉ change.properties.names) :
    (r.css blocks).get? name = some value ↔
      ∃ d ∈ r.inlineDeclarations blocks, d.channel.property = name ∧
        value = .string (d.signal.text r.spacing) := by
  constructor
  · intro hget
    obtain ⟨node, hnode, on, rfl⟩ :=
      Styling.exists_channel_of_unwritten hname (OrderedMap.mem_names_of_get? hget)
    have hd : ⟨node.channel on, Toggle.signal node.connective node.first node.second on⟩ ∈
        r.inlineDeclarations blocks :=
      List.mem_flatMap.mpr ⟨node, hnode, node.mem_declarations on⟩
    have hvalue := get?_css_of_mem_inline hd hname
    rw [hget] at hvalue
    exact ⟨_, hd, rfl, Option.some_inj.mp hvalue⟩
  · rintro ⟨d, hd, rfl, rfl⟩
    exact get?_css_of_mem_inline hd hname

section DefaultNames

variable (hnaming : config.naming = none)

include hnaming

/-- A numbered name and the name of a hook meet only where the digest of the hook is that numbered
name. -/
theorem eq_of_numbered_append {definition : Condition Scope} {n : Nat} {p q : List Char}
    (hp : IsPath p) (hq : IsPath q)
    (h : Identifier.numbered n ++ String.ofList p =
      config.toggleId name definition ++ String.ofList q) :
    config.readable = false ∧ config.toggleId name definition = Identifier.numbered n ∧ n < 100 ∧
      p = q := by
  have hid : config.toggleId name definition =
      Identifier.ofHook config.readable name definition := by
    rw [Configuration.toggleId, hnaming]
  rw [hid] at h ⊢
  cases hreadable : config.readable with
  | true =>
    rw [hreadable] at h
    exact absurd h.symm (Identifier.ofHook_readable_append_ne name definition n q hp)
  | false =>
    rw [hreadable] at h
    obtain ⟨hname, hpath⟩ := (append_path_inj (Identifier.tipped_numbered n)
      (Identifier.tipped_ofHook false name definition) hp hq).mp h
    exact ⟨rfl, hname.symm, Identifier.lt_of_ofText_eq_numbered hname.symm, hpath⟩

theorem id_ne_numbered {hook : Hook} (hreadable : config.readable = true)
    (h : hook ∈ (create config valueText).hooks) (n : Nat) : hook.id ≠ Identifier.numbered n := by
  intro heq
  obtain ⟨definition, -, -, hid⟩ := mem_hooks_iff.mp h
  have hpath : IsPath [] := by simp [IsPath]
  have hcompact := (eq_of_numbered_append hnaming hpath hpath (by rw [hid, heq])).1
  rw [hreadable] at hcompact
  cases hcompact

theorem not_isSheetName_of_isInlineName
    (hids : ∀ hook ∈ (create config valueText).hooks,
      ∀ n < ((create config valueText).styling.changes blocks).countP
        (create config valueText).styling.takesNumber, hook.id ≠ Identifier.numbered n)
    (hinline : (create config valueText).IsInlineName blocks name) :
    ¬ (create config valueText).IsSheetName name := by
  rintro ⟨hook, hhook, hbelow⟩
  obtain ⟨node, hnode, rfl⟩ := hinline
  obtain ⟨n, hn, hnumbered⟩ := Styling.below_of_mem_localCompounds hnode
  exact hids hook hhook n hn
    (hbelow.unique (tipped_id hnaming hhook) (Identifier.tipped_numbered n) hnumbered)

end DefaultNames

/-- Toggles that a style declares for itself and toggles of the style sheet, under default names. A
name of the one kind is one of the other only where the digest of a hook is spelled like a numbered
name. What the style has besides the properties that blocks set is what it declares for its own
toggles, all of it and no more. Where no hook of the registry has a name that is numbered in this
merge, no declaration of the style hides one of the style sheet, and no toggle refers to itself,
directly or through others. -/
theorem local_toggles_stay_apart (config : Configuration) (hnaming : config.naming = none)
    (valueText : ValueText) (blocks : List Block) :
    let r := create config valueText
    let changes := r.styling.changes blocks
    (∀ name definition, config.hooks.get? name = some definition →
      ∀ n p q, IsPath p → IsPath q →
        Identifier.numbered n ++ String.ofList p =
            config.toggleId name definition ++ String.ofList q →
          config.readable = false ∧ config.toggleId name definition = Identifier.numbered n ∧
            n < 100 ∧ p = q) ∧
    (∀ name, (∀ change ∈ changes, name ∉ change.properties.names) → ∀ value,
      (r.css blocks).get? name = some value ↔
        ∃ d ∈ r.inlineDeclarations blocks, d.channel.property = name ∧
          value = .string (d.signal.text r.spacing)) ∧
    ((config.readable = true ∨ ∀ hook ∈ r.hooks,
        ∀ n < (changes.foldl r.styling.apply {}).numbered, hook.id ≠ Identifier.numbered n) →
      (∀ d ∈ r.inlineDeclarations blocks, ∀ e ∈ r.sheetDeclarations,
        d.channel.toggle ≠ e.channel.toggle) ∧
      ∀ name, ¬ Relation.TransGen (Declaration.DeclaredThrough
        (r.sheetDeclarations ++ r.inlineDeclarations blocks)) name name) := by
  intro r changes
  refine ⟨?_, ?_, ?_⟩
  · intro name definition _ n p q hp hq h
    exact eq_of_numbered_append hnaming hp hq h
  · intro name hname value
    exact get?_css_iff_of_unwritten hname
  · intro hmode
    have hids : ∀ hook ∈ r.hooks, ∀ n < changes.countP r.styling.takesNumber,
        hook.id ≠ Identifier.numbered n := by
      rw [← Styling.numbered_run]
      rcases hmode with hreadable | hids
      · intro hook hhook n _
        exact id_ne_numbered hnaming hreadable hhook n
      · exact hids
    have happart : ∀ name, r.IsInlineName blocks name → ¬ r.IsSheetName name :=
      fun name => not_isSheetName_of_isInlineName hnaming hids
    refine ⟨?_, not_transGen_self_of_lt (rank (r.IsInlineName blocks)) ?_⟩
    · intro d hd e he hsame
      exact happart d.channel.toggle (isInlineName_of_mem hd) (hsame ▸ isSheetName_of_mem he)
    · rintro name other ⟨d, hd, hthrough⟩
      rcases List.mem_append.mp hd with hsheet | hinline
      · obtain ⟨hname, hother, hlength⟩ := operand_of_sheet ⟨d, hsheet, hthrough⟩
        exact rank_lt_of_length (iff_of_false (fun h => happart name h hname)
          fun h => happart other h hother) hlength
      · obtain ⟨hname, hhook | ⟨hother, hlength⟩⟩ := operand_of_inline ⟨d, hinline, hthrough⟩
        · exact rank_lt_of_not hname fun h => happart other h hhook
        · exact rank_lt_of_length (iff_of_true hname hother) hlength

/-- The digest of one hook is the first numbered name: the name of the hook in front keeps it apart,
and without it a merge of other hooks is not concerned. -/
theorem local_toggles_stay_apart_of_digest :
    let hook (source : String) : Condition Scope := .atom (.selector source)
    let hooks : OrderedMap (Condition Scope) :=
      .ofList [("x", hook ".x &"), ("y", hook ".y &"), ("z", hook ".bdbbqti &")]
    let red : Style := .ofList [("color", .string "red")]
    let both (first second : String) : List Block :=
      [⟨{}, [⟨.all [.atom first, .atom second], red⟩]⟩]
    let compact : Configuration := { hooks }
    let readable := create { hooks, readable := true } .generic
    let other := create { hooks := .ofList [("x", hook ".x &"), ("y", hook ".y &")] } .generic
    (compact.toggleId "z" (hook ".bdbbqti &") = Identifier.numbered 0 ∧ 0 < 100) ∧
    (∃ d ∈ readable.inlineDeclarations (both "x" "z"), d.channel.property = "--cond0-1" ∧
      (readable.css (both "x" "z")).get? "--cond0-1" =
        some (.string (d.signal.text readable.spacing))) ∧
    (∀ d ∈ readable.inlineDeclarations (both "x" "z"), ∀ e ∈ readable.sheetDeclarations,
      d.channel.toggle ≠ e.channel.toggle) ∧
    (other.inlineDeclarations (both "x" "y") ≠ [] ∧ ¬ Relation.TransGen (Declaration.DeclaredThrough
      (other.sheetDeclarations ++ other.inlineDeclarations (both "x" "y"))) "cond0" "cond0") := by
  intro hook hooks red both compact readable other
  have hpath : IsPath ['A'] := by simp [IsPath]
  obtain ⟨hmeet, -, -⟩ := local_toggles_stay_apart compact rfl .generic []
  obtain ⟨-, hdeclared, hreadable⟩ :=
    local_toggles_stay_apart { hooks, readable := true } rfl .generic (both "x" "z")
  obtain ⟨-, -, hother⟩ := local_toggles_stay_apart
    { hooks := .ofList [("x", hook ".x &"), ("y", hook ".y &")] } rfl .generic (both "x" "y")
  refine ⟨?_, ?_, (hreadable (Or.inl rfl)).1, by decide +kernel, ?_⟩
  · obtain ⟨-, hid, hlt, -⟩ := hmeet "z" (hook ".bdbbqti &") (by decide +kernel) 0 ['A'] ['A']
      hpath hpath (by decide +kernel)
    exact ⟨hid, hlt⟩
  · have hsome : ((readable.css (both "x" "z")).get? "--cond0-1").isSome := by decide +kernel
    obtain ⟨value, hvalue⟩ := Option.isSome_iff_exists.mp hsome
    obtain ⟨d, hd, hproperty, rfl⟩ :=
      (hdeclared "--cond0-1" (by decide +kernel) value).mp hvalue
    exact ⟨d, hd, hproperty, hvalue⟩
  · exact (hother (Or.inr (by decide +kernel))).2 "cond0"

/-- Where the digest of a hook is the first numbered name, a compound with this hook takes its name:
it hides the hook, and refers to itself in its place. -/
theorem local_toggle_hides_hook :
    let hook (source : String) : Condition Scope := .atom (.selector source)
    let config : Configuration :=
      { hooks := .ofList [("x", hook ".x &"), ("z", hook ".bdbbqti &")] }
    let blocks : List Block :=
      [⟨{}, [⟨.all [.atom "x", .atom "z"], .ofList [("color", .string "red")]⟩]⟩]
    let r := create config .generic
    config.naming = none ∧ config.toggleId "z" (hook ".bdbbqti &") = Identifier.numbered 0 ∧
    (∃ d ∈ r.inlineDeclarations blocks, ∃ e ∈ r.sheetDeclarations, d.channel = e.channel) ∧
    ((r.css blocks).get? "--cond0-0").bind (ValueText.generic "--cond0-0") =
      some "var(--guyzsg-0)var(--cond0-0)" ∧
    Relation.TransGen (Declaration.DeclaredThrough
      (r.sheetDeclarations ++ r.inlineDeclarations blocks)) "cond0" "cond0" := by
  intro hook config blocks r
  refine ⟨rfl, by decide +kernel, by decide +kernel, by decide +kernel, .single ?_⟩
  unfold Declaration.DeclaredThrough
  decide +kernel

end Registry

end ConditionalStyles
