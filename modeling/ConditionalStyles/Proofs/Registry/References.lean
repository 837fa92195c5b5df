import ConditionalStyles.Proofs.Cascade.Mention
import ConditionalStyles.Proofs.Registry.Element

/-!
References inside of a style sheet. In the rule for all elements, a compound refers to its operands
and atoms refer to nothing; the operands have the name of the compound with one more letter, and are
declared next to it. So no reference hangs in the air, and since every reference leads to a longer
name, none comes back: neither depends on the names of hooks being distinct.
-/
namespace ConditionalStyles

open Text Cascade

namespace Cascade

/-- One property has a value that refers to another. -/
def Refers (entries : List (String × String)) (name other : String) : Prop :=
  ∃ entry ∈ entries, entry.1 = name ∧ Mentions other entry.2.toList

theorem not_mentions_of_forall_ne {name : String} {cs : List Char} (h : ∀ c ∈ cs, c ≠ 'v') :
    ¬ Mentions name cs := by
  induction cs with
  | nil => exact not_mentions_nil
  | cons c cs ih =>
    rw [List.forall_mem_cons] at h
    rw [mentions_cons_iff (reference?_of_head_ne h.1 cs)]
    exact ih h.2

namespace TextSheet

/-- The declarations of the rule that a text starts with, if it is for all elements. -/
def root? (text : String) : Option (List (String × String)) :=
  match (text.toList.takeWhile (· != '\x7d')).splitOn '\x7b' with
  | [prelude, block] =>
    (rule? prelude block).bind fun rule => if rule.prelude = "*" then some rule.body else none
  | _ => none

end TextSheet

end Cascade

open TextSheet

theorem length_property_lt {toggle letter : String} {on : Bool}
    (hletter : letter = "A" ∨ letter = "B") :
    (Channel.property ⟨toggle, on⟩).length < (Channel.property ⟨toggle ++ letter, on⟩).length := by
  have hlength : letter.length = 1 := by
    rcases hletter with rfl | rfl <;> rfl
  simp only [Channel.property, String.length_append]
  omega

namespace Sheet

variable {s : Spacing} (hs : s.Blank)

include hs

/-- The rule for all elements ends where the first brace is closed, whatever scopes come after. -/
theorem root?_text {sheet : Sheet} (hroot : ∀ d ∈ sheet.root, d.Named) :
    root? (sheet.text s) = some (sheet.root.map (Declaration.entry s)) := by
  have hprelude : Unbraced ((s.indentation 0).toList ++ "*".toList ++ s.space.toList) :=
    unbraced_append (unbraced_append (Unbraced.of_blank (hs.indentation 0)) (by decide))
      (Unbraced.of_blank hs.space)
  have hblock : Unbraced (s.newline.toList ++ (declarationsText s 1 sheet.root).toList ++
      (s.indentation 0).toList) :=
    unbraced_append (unbraced_append (Unbraced.of_blank hs.newline)
      (unbraced_declarationsText hs 1 hroot)) (Unbraced.of_blank (hs.indentation 0))
  have htext : (sheet.text s).toList =
      ((s.indentation 0).toList ++ "*".toList ++ s.space.toList ++ '\x7b' ::
        (s.newline.toList ++ (declarationsText s 1 sheet.root).toList ++
          (s.indentation 0).toList)) ++
      '\x7d' :: (s.newline.toList ++ (String.join (sheet.rules.map (ruleText s))).toList) := by
    simp [text, blockText_toList]
  have hpass : ∀ c ∈ (s.indentation 0).toList ++ "*".toList ++ s.space.toList ++ '\x7b' ::
      (s.newline.toList ++ (declarationsText s 1 sheet.root).toList ++ (s.indentation 0).toList),
      (c != '\x7d') = true := by
    intro c hc
    rw [bne_iff_ne]
    rcases List.mem_append.mp hc with hleft | hright
    · exact (hprelude c hleft).2
    · rcases List.mem_cons.mp hright with rfl | hin
      · decide
      · exact (hblock c hin).2
  have hrule : rule? ((s.indentation 0).toList ++ "*".toList ++ s.space.toList)
      (s.newline.toList ++ (declarationsText s 1 sheet.root).toList ++ (s.indentation 0).toList) =
        some ⟨String.ofList (trim "*".toList), sheet.root.map (Declaration.entry s)⟩ :=
    rule?_declarationsText hs (hs.indentation 0) (hs.indentation 0) 1 hroot
  rw [root?, htext, List.takeWhile_append_of_pos hpass, List.takeWhile_cons_of_neg (by decide),
    List.append_nil,
    List.splitOn_append_cons_self_of_not_mem fun hmem => (hprelude _ hmem).1 rfl,
    List.splitOn_eq_singleton fun hmem => (hblock _ hmem).1 rfl]
  simp only [hrule]
  rfl

theorem not_mentions_of_mem_settle {id name : String} {value : Bool} {d : Declaration}
    (hd : d ∈ Toggle.settle id value) : ¬ Mentions name (d.entry s).2.toList := by
  have hinitial : ∀ c ∈ "initial".toList, c ≠ 'v' := by simp
  have hblank : ¬ Mentions name s.blank.toList := by
    rw [← List.append_nil s.blank.toList, mentions_blank_append hs.blank]
    exact not_mentions_nil
  have hsignal : d.signal = .invalid ∨ d.signal = .blank := by
    simp only [Toggle.settle, List.mem_cons, List.not_mem_nil, or_false] at hd
    rcases hd with rfl | rfl <;> cases value <;> simp
  rw [Declaration.entry, String.toList_append, mentions_blank_append hs.space]
  rcases hsignal with hsignal | hsignal
  · rw [hsignal]
    exact not_mentions_of_forall_ne hinitial
  · rw [hsignal]
    exact hblank

theorem mentions_of_mem_wire {id name : String} {k : Connective} {a b : String} (ha : IsName a)
    (hb : IsName b) {d : Declaration} (hd : d ∈ Toggle.wire id k { id := a } { id := b }) :
    Mentions name (d.entry s).2.toList ↔
      name = Channel.property ⟨a, d.channel.on⟩ ∨ name = Channel.property ⟨b, d.channel.on⟩ := by
  have hmentions := Toggle.mentions_signal hs (a := { id := a }) (b := { id := b }) ha.nameable
    hb.nameable k d.channel.on name
  rw [Declaration.entry, String.toList_append, mentions_blank_append hs.space,
    Toggle.signal_of_mem_wire hd, hmentions]
  simp [Toggle.channel, eq_comm]

omit hs in
theorem Node.exists_mem_root (n : Node) (on : Bool) : ∃ d ∈ n.root, d.channel = ⟨n.id, on⟩ := by
  cases n <;> cases on <;> simp [root, id, Toggle.settle, Toggle.wire]

/-- A node refers to names with one more letter, if it is a compound. -/
theorem Node.mentions_root {n : Node} (hn : IsName n.id) {d : Declaration} (hd : d ∈ n.root)
    {name : String} (h : Mentions name (d.entry s).2.toList) :
    ∃ k, n = .pair n.id k ∧ ∃ letter, (letter = "A" ∨ letter = "B") ∧
      name = Channel.property ⟨n.id ++ letter, d.channel.on⟩ := by
  cases n with
  | leaf id negated scope => exact absurd h (not_mentions_of_mem_settle hs hd)
  | pair id k =>
    have hfirst : IsName (id ++ "A") := isName_append hn (by decide)
    have hsecond : IsName (id ++ "B") := isName_append hn (by decide)
    refine ⟨k, rfl, ?_⟩
    rcases (mentions_of_mem_wire hs hfirst hsecond hd).mp h with hname | hname
    · exact ⟨"A", Or.inl rfl, hname⟩
    · exact ⟨"B", Or.inr rfl, hname⟩

omit hs in
theorem nodes_connect (id : String) (negated : Bool) (k : Connective) (a b : Condition Scope) :
    nodes id negated (.connect k [a, b]) =
      nodes (id ++ "A") negated a ++ nodes (id ++ "B") negated b ++ [.pair id (k.under negated)] :=
  rfl

omit hs in
theorem exists_node_self {c : Condition Scope} (h : c.Canonical) (id : String) (negated : Bool) :
    ∃ n ∈ nodes id negated c, n.id = id := by
  induction c, h using Condition.Canonical.induction generalizing negated with
  | atom scope => exact ⟨_, List.mem_singleton.mpr rfl, rfl⟩
  | not c hnot hc ih => exact ih (!negated)
  | connect k a b ha hb =>
    rw [nodes_connect]
    exact ⟨_, List.mem_append_right _ (List.mem_singleton.mpr rfl), rfl⟩

omit hs in
/-- Below a compound there are nodes for both operands: normal forms have no compound with less. -/
theorem exists_operand_node {c : Condition Scope} (h : c.Canonical) {id name letter : String}
    {negated : Bool} {k : Connective} (hmem : Node.pair name k ∈ nodes id negated c)
    (hletter : letter = "A" ∨ letter = "B") :
    ∃ n ∈ nodes id negated c, n.id = name ++ letter := by
  induction c, h using Condition.Canonical.induction generalizing id negated with
  | atom scope => cases List.mem_singleton.mp hmem
  | not c hnot hc ih => exact ih hmem
  | connect l a b ha hb iha ihb =>
    rw [nodes_connect] at hmem ⊢
    rcases List.mem_append.mp hmem with hoperand | hself
    · rcases List.mem_append.mp hoperand with hfirst | hsecond
      · obtain ⟨n, hn, hid⟩ := iha hfirst
        exact ⟨n, List.mem_append_left _ (List.mem_append_left _ hn), hid⟩
      · obtain ⟨n, hn, hid⟩ := ihb hsecond
        exact ⟨n, List.mem_append_left _ (List.mem_append_right _ hn), hid⟩
    · have hname : name = id := (Node.pair.inj (List.mem_singleton.mp hself)).1
      rw [hname]
      rcases hletter with rfl | rfl
      · obtain ⟨n, hn, hid⟩ := exists_node_self ha (id ++ "A") negated
        exact ⟨n, List.mem_append_left _ (List.mem_append_left _ hn), hid⟩
      · obtain ⟨n, hn, hid⟩ := exists_node_self hb (id ++ "B") negated
        exact ⟨n, List.mem_append_left _ (List.mem_append_right _ hn), hid⟩

/-- In the rule for all elements of canonical conditions, what is referred to is declared, and has
the name of the declared toggle with one more letter. -/
theorem mentions_ofHooks {hooks : List (String × Condition Scope)}
    (hcanonical : ∀ hook ∈ hooks, hook.2.Canonical) (hnames : ∀ hook ∈ hooks, IsName hook.1)
    {d : Declaration} (hd : d ∈ (ofHooks hooks).root) {name : String}
    (h : Mentions name (d.entry s).2.toList) :
    (∃ e ∈ (ofHooks hooks).root, e.channel.property = name) ∧
      ∃ letter, (letter = "A" ∨ letter = "B") ∧
        name = Channel.property ⟨d.channel.toggle ++ letter, d.channel.on⟩ := by
  rw [ofHooks_eq_ofNodes] at hd ⊢
  obtain ⟨n, hn, hdn⟩ := List.mem_flatMap.mp hd
  obtain ⟨hook, hhook, hn⟩ := List.mem_flatMap.mp hn
  have hid : IsName n.id := isName_of_below (hnames hook hhook) (below_of_mem_nodes n hn)
  obtain ⟨k, hpair, letter, hletter, rfl⟩ := n.mentions_root hs hid hdn h
  rw [hpair] at hn
  obtain ⟨m, hm, hmid⟩ := exists_operand_node (hcanonical hook hhook) hn hletter
  obtain ⟨e, he, hchannel⟩ := m.exists_mem_root d.channel.on
  refine ⟨⟨e, ?_, by rw [hchannel, hmid]⟩, letter, hletter, by rw [Node.toggle_of_mem_root hdn]⟩
  exact List.mem_flatMap.mpr ⟨m, List.mem_flatMap.mpr ⟨hook, hhook, hm⟩, he⟩

/-- The rule of an atom refers to nothing. -/
theorem not_mentions_rules {hooks : List (String × Condition Scope)} {r : Rule}
    (hr : r ∈ (ofHooks hooks).rules) {d : Declaration} (hd : d ∈ r.body) (name : String) :
    ¬ Mentions name (d.entry s).2.toList := by
  rw [ofHooks_eq_ofNodes] at hr
  obtain ⟨n, -, hr⟩ := List.mem_flatMap.mp hr
  cases n with
  | leaf id negated scope =>
    rw [Node.rules, List.mem_singleton] at hr
    subst hr
    exact not_mentions_of_mem_settle hs hd
  | pair id k => cases hr

end Sheet

namespace Registry

theorem isName_id_of_naming {config : Configuration} {valueText : ValueText}
    (hnaming : ∀ f, config.naming = some f → ∀ name ∈ config.hooks.names, IsName (f name))
    {hook : Hook} (h : hook ∈ (create config valueText).hooks) : IsName hook.id := by
  cases hf : config.naming with
  | none => exact isName_id hf h
  | some f =>
    obtain ⟨definition, hget, -, hid⟩ := mem_hooks_iff.mp h
    rw [← hid, Configuration.toggleId, hf]
    exact hnaming f hf hook.name (OrderedMap.mem_names_of_get? hget)

/-- Whatever toggles are called, as long as it is with letters, digits, hyphens and underscores:
the rule for all elements declares each channel that it refers to, the channels of a toggle refer to
those of names with one more letter only, and no reference leads back to where it started. -/
theorem sheet_references_lead_on (config : Configuration) (valueText : ValueText)
    (hnaming : ∀ f, config.naming = some f → ∀ name ∈ config.hooks.names, IsName (f name)) :
    let r := create config valueText
    let root := r.sheet.root.map (Declaration.entry r.spacing)
    let inScopes := r.sheet.rules.flatMap fun rule => rule.body.map (Declaration.entry r.spacing)
    TextSheet.root? r.styleSheet.1 = some root ∧
      (∀ entry ∈ root, ∀ name, Mentions name entry.2.toList →
        name ∈ root.map Prod.fst ∧
          ∃ toggle on letter, (letter = "A" ∨ letter = "B") ∧
            entry.1 = Channel.property ⟨toggle, on⟩ ∧
            name = Channel.property ⟨toggle ++ letter, on⟩) ∧
      (∀ entry ∈ inScopes, ∀ name, ¬ Mentions name entry.2.toList) ∧
      ∀ name, ¬ Relation.TransGen (Refers (root ++ inScopes)) name name := by
  intro r root inScopes
  have hs : r.spacing.Blank := Spacing.ofReadable_blank config.readable
  have hnames : ∀ entry ∈ r.hooks.map fun hook => (hook.id, hook.condition), IsName entry.1 := by
    intro entry hentry
    obtain ⟨hook, hhook, rfl⟩ := List.mem_map.mp hentry
    exact isName_id_of_naming hnaming hhook
  have hcanonical : ∀ entry ∈ r.hooks.map fun hook => (hook.id, hook.condition),
      entry.2.Canonical := by
    intro entry hentry
    obtain ⟨hook, hhook, rfl⟩ := List.mem_map.mp hentry
    obtain ⟨definition, -, hnormal, -⟩ := mem_hooks_iff.mp hhook
    exact Condition.canonical_of_normalize hnormal
  have hroot : ∀ entry ∈ root, ∀ name, Mentions name entry.2.toList →
      name ∈ root.map Prod.fst ∧
        ∃ toggle on letter, (letter = "A" ∨ letter = "B") ∧
          entry.1 = Channel.property ⟨toggle, on⟩ ∧
          name = Channel.property ⟨toggle ++ letter, on⟩ := by
    intro entry hentry name h
    obtain ⟨d, hd, rfl⟩ := List.mem_map.mp hentry
    obtain ⟨⟨e, he, hname⟩, letter, hletter, hlonger⟩ :=
      Sheet.mentions_ofHooks hs hcanonical hnames hd h
    refine ⟨?_, d.channel.toggle, d.channel.on, letter, hletter, rfl, hlonger⟩
    exact List.mem_map.mpr ⟨_, List.mem_map_of_mem he, hname⟩
  have hscopes : ∀ entry ∈ inScopes, ∀ name, ¬ Mentions name entry.2.toList := by
    intro entry hentry name
    obtain ⟨rule, hrule, hentry⟩ := List.mem_flatMap.mp hentry
    obtain ⟨d, hd, rfl⟩ := List.mem_map.mp hentry
    exact Sheet.not_mentions_rules hs hrule hd name
  have hnamed : ∀ d ∈ r.sheet.root, d.Named := by
    rw [sheet, Sheet.ofHooks_eq_ofNodes]
    exact Sheet.named_of_mem_ofNodes (Sheet.isName_of_mem_hookNodes hnames)
  refine ⟨Sheet.root?_text hs hnamed, hroot, hscopes, ?_⟩
  apply not_transGen_self_of_lt String.length
  rintro name other ⟨entry, hentry, rfl, h⟩
  rcases List.mem_append.mp hentry with hin | hin
  · obtain ⟨-, toggle, on, letter, hletter, hname, rfl⟩ := hroot entry hin other h
    rw [hname]
    exact length_property_lt hletter
  · exact absurd h (hscopes entry hin other)

/-- One hook has the name of an operand of another, and a third one has an empty name: the first
operand of the conjunction is declared twice, the second time as a compound. -/
theorem sheet_references_lead_on_of_overlap :
    let atom (source : String) : Condition Scope := .atom (.selector source)
    let config : Configuration := {
      hooks := .ofList [("x", .all [atom ".a &", .not (.all [atom ".b &", atom ".c &"])]),
        ("xA", .any [atom ".d &", atom ".e &"]), ("", .any [atom ".f &", .any [], atom ".g &"])]
      naming := some fun name => name }
    let r := create config .generic
    let root := r.sheet.root.map (Declaration.entry r.spacing)
    let inScopes := r.sheet.rules.flatMap fun rule => rule.body.map (Declaration.entry r.spacing)
    TextSheet.root? r.styleSheet.1 = some root ∧
      (∀ entry ∈ [("--x-0", "var(--xA-0)var(--xB-0)"), ("--xA-0", "initial"),
        ("--xA-0", "var(--xAA-0,var(--xAB-0))"), ("---0", "var(--A-0,var(--B-0))")],
        entry ∈ root ∧ ∀ name, Mentions name entry.2.toList → name ∈ root.map Prod.fst) ∧
      ¬ Relation.TransGen (Refers (root ++ inScopes)) "--xA-0" "--xA-0" := by
  intro atom config r root inScopes
  have hnames : ∀ name ∈ config.hooks.names, IsName name := by decide +kernel
  have hentries : ∀ entry ∈ [("--x-0", "var(--xA-0)var(--xB-0)"), ("--xA-0", "initial"),
      ("--xA-0", "var(--xAA-0,var(--xAB-0))"), ("---0", "var(--A-0,var(--B-0))")],
      entry ∈ root := by
    decide +kernel
  obtain ⟨hread, hroot, -, hacyclic⟩ := sheet_references_lead_on config .generic (by
    intro f hf
    cases hf
    exact hnames)
  refine ⟨hread, ?_, hacyclic "--xA-0"⟩
  intro entry hentry
  refine ⟨hentries entry hentry, ?_⟩
  intro name h
  exact (hroot entry (hentries entry hentry) name h).1

end Registry

end ConditionalStyles
