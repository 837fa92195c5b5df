import ConditionalStyles.Proofs.Cascade.Path
import ConditionalStyles.Proofs.Cascade.SheetText
import ConditionalStyles.Proofs.Condition.Canonical

/-!
Truth values in style sheets. The sheet of a condition is made of nodes: one for each atom, with a
rule for its scope, and one for each compound of two operands. Where the names of the nodes are
distinct, the toggle of a condition shows the truth value of the condition, an atom holding where
the prelude of its scope matches.
-/
namespace ConditionalStyles

open Text Cascade

namespace Sheet

/-- A toggle of a sheet, with the polarity of an atom or the connective of a compound. -/
inductive Node where
  | leaf (id : String) (negated : Bool) (scope : Scope)
  | pair (id : String) (k : Connective)
  deriving DecidableEq

namespace Node

def id : Node → String
  | leaf id _ _ => id
  | pair id _ => id

def root : Node → List Declaration
  | leaf id negated _ => Toggle.settle id negated
  | pair id k => Toggle.wire id k { id := id ++ "A" } { id := id ++ "B" }

def rules : Node → List Rule
  | leaf id negated scope => [⟨scope, Toggle.settle id (!negated)⟩]
  | pair _ _ => []

end Node

mutual

/-- The nodes of a condition, operands before their compound. -/
def nodes (id : String) (negated : Bool) : Condition Scope → List Node
  | .atom scope => [.leaf id negated scope]
  | .not c => nodes id (!negated) c
  | .connect k cs => operandNodes id negated k cs

def operandNodes (id : String) (negated : Bool) (k : Connective) :
    List (Condition Scope) → List Node
  | [] => []
  | [c] => nodes id negated c
  | c :: d :: rest =>
    nodes (id ++ "A") negated c ++ operandNodes (id ++ "B") negated k (d :: rest) ++
      [.pair id (k.under negated)]

end

def ofNodes (ns : List Node) : Sheet := ⟨ns.flatMap Node.root, ns.flatMap Node.rules⟩

def hookNodes (hooks : List (String × Condition Scope)) : List Node :=
  hooks.flatMap fun hook => nodes hook.1 false hook.2

/-- The names of the toggles that a condition has in a sheet: its own name, each with a path of
letters to an operand. -/
def toggleNames (hook : String × Condition Scope) : List String :=
  (nodes hook.1 false hook.2).map Node.id

theorem ofNodes_append (a b : List Node) : ofNodes (a ++ b) = ofNodes a ++ ofNodes b := by
  simp only [ofNodes, List.flatMap_append]
  rfl

mutual

theorem ofCondition_eq_ofNodes (id : String) (negated : Bool) :
    (c : Condition Scope) → ofCondition id negated c = ofNodes (nodes id negated c)
  | .atom scope => by simp [ofCondition, leaf, nodes, ofNodes, Node.root, Node.rules]
  | .not c => by
    rw [ofCondition, nodes]
    exact ofCondition_eq_ofNodes id (!negated) c
  | .connect k cs => by
    rw [ofCondition, nodes]
    exact ofOperands_eq_ofNodes id negated k cs

theorem ofOperands_eq_ofNodes (id : String) (negated : Bool) (k : Connective) :
    (cs : List (Condition Scope)) →
      ofOperands id negated k cs = ofNodes (operandNodes id negated k cs)
  | [] => rfl
  | [c] => by
    rw [ofOperands, operandNodes]
    exact ofCondition_eq_ofNodes id negated c
  | c :: d :: rest => by
    rw [ofOperands, operandNodes, ofCondition_eq_ofNodes (id ++ "A") negated c,
      ofOperands_eq_ofNodes (id ++ "B") negated k (d :: rest), ofNodes_append, ofNodes_append]
    simp [ofNodes, Node.root, Node.rules]

end

theorem ofHooks_eq_ofNodes (hooks : List (String × Condition Scope)) :
    ofHooks hooks = ofNodes (hookNodes hooks) := by
  induction hooks with
  | nil => rfl
  | cons hook hooks ih =>
    rw [ofHooks, ih, ofCondition_eq_ofNodes, ← ofNodes_append]
    rfl

mutual

theorem below_of_mem_nodes {id : String} {negated : Bool} :
    {c : Condition Scope} → ∀ n ∈ nodes id negated c, Below id n.id
  | .atom scope, n, h => by
    rw [nodes, List.mem_singleton] at h
    subst h
    exact below_self id
  | .not c, n, h => by
    rw [nodes] at h
    exact below_of_mem_nodes n h
  | .connect k cs, n, h => by
    rw [nodes] at h
    exact below_of_mem_operandNodes n h

theorem below_of_mem_operandNodes {id : String} {negated : Bool} {k : Connective} :
    {cs : List (Condition Scope)} → ∀ n ∈ operandNodes id negated k cs, Below id n.id
  | [], n, h => by cases h
  | [c], n, h => by
    rw [operandNodes] at h
    exact below_of_mem_nodes n h
  | c :: d :: rest, n, h => by
    rw [operandNodes, List.mem_append, List.mem_append, List.mem_singleton] at h
    rcases h with (hfirst | hsecond) | rfl
    · exact below_of_first (below_of_mem_nodes n hfirst)
    · exact below_of_second (below_of_mem_operandNodes n hsecond)
    · exact below_self id

end

mutual

/-- Within a condition, every node has a name of its own. -/
theorem nodup_nodes (id : String) (negated : Bool) :
    (c : Condition Scope) → ((nodes id negated c).map Node.id).Nodup
  | .atom scope => by simp [nodes]
  | .not c => by
    rw [nodes]
    exact nodup_nodes id (!negated) c
  | .connect k cs => by
    rw [nodes]
    exact nodup_operandNodes id negated k cs

theorem nodup_operandNodes (id : String) (negated : Bool) (k : Connective) :
    (cs : List (Condition Scope)) → ((operandNodes id negated k cs).map Node.id).Nodup
  | [] => by simp [operandNodes]
  | [c] => by
    rw [operandNodes]
    exact nodup_nodes id negated c
  | c :: d :: rest => by
    rw [operandNodes, List.map_append, List.map_append]
    refine nodup_below ?_ ?_ (nodup_nodes _ negated c) (nodup_operandNodes _ negated k (d :: rest))
    · intro name hname
      obtain ⟨n, hn, rfl⟩ := List.mem_map.mp hname
      exact below_of_mem_nodes n hn
    · intro name hname
      obtain ⟨n, hn, rfl⟩ := List.mem_map.mp hname
      exact below_of_mem_operandNodes n hn

end

mutual

theorem scope_of_mem_nodes {id : String} {negated : Bool} {name : String} {value : Bool}
    {scope : Scope} :
    {c : Condition Scope} → Node.leaf name value scope ∈ nodes id negated c → scope ∈ c.atoms
  | .atom other, h => by
    rw [nodes, List.mem_singleton] at h
    cases h
    exact List.mem_singleton.mpr rfl
  | .not c, h => by
    rw [nodes] at h
    rw [Condition.atoms]
    exact scope_of_mem_nodes h
  | .connect k cs, h => by
    rw [nodes] at h
    rw [Condition.atoms]
    exact scope_of_mem_operandNodes h

theorem scope_of_mem_operandNodes {id : String} {negated : Bool} {name : String} {value : Bool}
    {scope : Scope} {k : Connective} :
    {cs : List (Condition Scope)} → Node.leaf name value scope ∈ operandNodes id negated k cs →
      scope ∈ Condition.atomsList cs
  | [], h => by cases h
  | [c], h => by
    rw [operandNodes] at h
    exact List.mem_append_left _ (scope_of_mem_nodes h)
  | c :: d :: rest, h => by
    rw [operandNodes, List.mem_append, List.mem_append, List.mem_singleton] at h
    rw [Condition.atomsList]
    rcases h with (hfirst | hsecond) | hself
    · exact List.mem_append_left _ (scope_of_mem_nodes hfirst)
    · exact List.mem_append_right _ (scope_of_mem_operandNodes hsecond)
    · cases hself

end

namespace Node

theorem toggle_of_mem_root {n : Node} {d : Declaration} (h : d ∈ n.root) :
    d.channel.toggle = n.id := by
  cases n with
  | leaf id negated scope => exact Toggle.toggle_of_mem_settle h
  | pair id k => exact Toggle.toggle_of_mem_wire h

theorem unambiguous_root (n : Node) : Declaration.Unambiguous n.root := by
  cases n with
  | leaf id negated scope => exact Toggle.unambiguous_settle id negated
  | pair id k => exact Toggle.unambiguous_wire id k _ _

theorem toggle_of_mem_rules {n : Node} {r : Rule} (hr : r ∈ n.rules) {d : Declaration}
    (h : d ∈ r.body) : d.channel.toggle = n.id := by
  cases n with
  | leaf id negated scope =>
    rw [rules, List.mem_singleton] at hr
    subst hr
    exact Toggle.toggle_of_mem_settle h
  | pair id k => cases hr

theorem eq_of_mem_rules {n : Node} {r r' : Rule} (hr : r ∈ n.rules) (hr' : r' ∈ n.rules)
    {d e : Declaration} (hd : d ∈ r.body) (he : e ∈ r'.body) (hchannel : e.channel = d.channel) :
    e = d := by
  cases n with
  | leaf id negated scope =>
    rw [rules, List.mem_singleton] at hr hr'
    subst hr hr'
    exact Toggle.unambiguous_settle id (!negated) d hd e he hchannel
  | pair id k => cases hr

end Node

/-- Nodes of one name are one node. -/
def Distinct (ns : List Node) : Prop := ∀ n ∈ ns, ∀ m ∈ ns, n.id = m.id → n = m

theorem distinct_hookNodes {hooks : List (String × Condition Scope)}
    (h : ∀ hook ∈ hooks, ∀ other ∈ hooks, ∀ name ∈ toggleNames hook, name ∈ toggleNames other →
      hook = other) : Distinct (hookNodes hooks) := by
  intro n hn m hm hid
  obtain ⟨hook, hhook, hn⟩ := List.mem_flatMap.mp hn
  obtain ⟨other, hother, hm⟩ := List.mem_flatMap.mp hm
  have hsame : hook = other := by
    apply h hook hhook other hother n.id
    · exact List.mem_map_of_mem hn
    · rw [hid]
      exact List.mem_map_of_mem hm
  subst hsame
  exact List.inj_on_of_nodup_map (nodup_nodes hook.1 false hook.2) hn hm hid

/-- The declarations that count where some of the rules apply. -/
def declared (sheet : Sheet) (applies : String → Bool) : List Declaration :=
  sheet.root ++ (sheet.rules.filter fun r => applies r.scope.prelude).flatMap Rule.body

def environment (sheet : Sheet) (s : Spacing) (applies : String → Bool) : Environment :=
  overwrite Environment.empty ((sheet.declared applies).map (Declaration.entry s))

theorem environment_textSheet (sheet : Sheet) (s : Spacing) (applies : String → Bool) :
    TextSheet.environment ⟨sheet.root.map (Declaration.entry s), sheet.rules.map (Rule.entry s)⟩
      applies = sheet.environment s applies := by
  have hscoped : ((sheet.rules.map (Rule.entry s)).filter fun r => applies r.prelude).flatMap
        TextRule.body =
      ((sheet.rules.filter fun r => applies r.scope.prelude).flatMap Rule.body).map
        (Declaration.entry s) := by
    rw [List.filter_map, List.flatMap_map, List.map_flatMap]
    rfl
  simp only [TextSheet.environment, TextSheet.declarations, environment, declared,
    List.map_append, hscoped]

section Cascading

variable {s : Spacing} {applies : String → Bool}

theorem declares_of_unique (hs : s.Blank) (env : Environment) {ds : List Declaration}
    {d : Declaration} (hd : d ∈ ds) (h : ∀ e ∈ ds, e.channel = d.channel → e = d) :
    Environment.Declares (overwrite env (ds.map (Declaration.entry s))) s d := by
  refine ⟨s.space, hs.space, ?_⟩
  refine overwrite_of_forall_eq env (List.mem_map_of_mem hd) ?_
  intro entry hentry hname
  obtain ⟨e, he, rfl⟩ := List.mem_map.mp hentry
  have hchannel := Channel.property_injective hname
  rw [h e he hchannel]
  rfl

/-- Inside the scope of an atom, its rule settles it. -/
theorem declares_rule (hs : s.Blank) {ns : List Node} (hns : Distinct ns) {n : Node} (hn : n ∈ ns)
    {r : Rule} (hr : r ∈ n.rules) (happlies : applies r.scope.prelude = true) {d : Declaration}
    (hd : d ∈ r.body) : ((ofNodes ns).environment s applies).Declares s d := by
  rw [environment, declared, List.map_append, overwrite_append]
  apply declares_of_unique hs
  · have hrule : r ∈ (ofNodes ns).rules := List.mem_flatMap.mpr ⟨n, hn, hr⟩
    exact List.mem_flatMap.mpr ⟨r, List.mem_filter.mpr ⟨hrule, happlies⟩, hd⟩
  · intro e he hchannel
    obtain ⟨r', hr', he⟩ := List.mem_flatMap.mp he
    obtain ⟨m, hm, hr'⟩ := List.mem_flatMap.mp (List.mem_filter.mp hr').1
    have hid : m.id = n.id := by
      rw [← Node.toggle_of_mem_rules hr' he, hchannel, Node.toggle_of_mem_rules hr hd]
    have hmn := hns m hm n hn hid
    subst hmn
    exact Node.eq_of_mem_rules hr hr' hd he hchannel

/-- Outside of the scopes of a node, the rule for all elements decides. -/
theorem declares_root (hs : s.Blank) {ns : List Node} (hns : Distinct ns) {n : Node} (hn : n ∈ ns)
    (happlies : ∀ r ∈ n.rules, applies r.scope.prelude = false) {d : Declaration}
    (hd : d ∈ n.root) : ((ofNodes ns).environment s applies).Declares s d := by
  have hroot : d ∈ (ofNodes ns).root := List.mem_flatMap.mpr ⟨n, hn, hd⟩
  have hunique : ∀ e ∈ (ofNodes ns).root, e.channel = d.channel → e = d := by
    intro e he hchannel
    obtain ⟨m, hm, he⟩ := List.mem_flatMap.mp he
    have hid : m.id = n.id := by
      rw [← Node.toggle_of_mem_root he, hchannel, Node.toggle_of_mem_root hd]
    have hmn := hns m hm n hn hid
    subst hmn
    exact m.unambiguous_root d hd e he hchannel
  obtain ⟨gap, hgap, henv⟩ := declares_of_unique hs Environment.empty hroot hunique
  refine ⟨gap, hgap, ?_⟩
  rw [environment, declared, List.map_append, overwrite_append,
    overwrite_of_forall_ne, henv]
  intro entry hentry hname
  obtain ⟨e, he, rfl⟩ := List.mem_map.mp hentry
  obtain ⟨r, hr, he⟩ := List.mem_flatMap.mp he
  obtain ⟨hr, hmatch⟩ := List.mem_filter.mp hr
  obtain ⟨m, hm, hr⟩ := List.mem_flatMap.mp hr
  have hchannel := Channel.property_injective hname
  have hid : m.id = n.id := by
    rw [← Node.toggle_of_mem_rules hr he, hchannel, Node.toggle_of_mem_root hd]
  have hmn := hns m hm n hn hid
  subst hmn
  rw [happlies r hr] at hmatch
  cases hmatch

end Cascading

/-- The environment has what the node stands for. -/
def Node.Realized (env : Environment) (s : Spacing) (holds : Scope → Bool) : Node → Prop
  | leaf id negated scope => env.Shows { id } (holds scope != negated)
  | pair id k =>
    ∀ d ∈ Toggle.wire id k { id := id ++ "A" } { id := id ++ "B" }, env.Declares s d

/-- An environment that has the channels of the nodes from the sheet realizes the nodes. -/
theorem realized_of_agrees {s : Spacing} (hs : s.Blank) {applies : String → Bool}
    {ns : List Node} (hns : Distinct ns) {env : Environment}
    (henv : ∀ n ∈ ns, ∀ on, env (Channel.property ⟨n.id, on⟩) =
      (ofNodes ns).environment s applies (Channel.property ⟨n.id, on⟩))
    {n : Node} (hn : n ∈ ns) : n.Realized env s fun scope => applies scope.prelude := by
  have htransfer {d : Declaration} (htoggle : d.channel.toggle = n.id)
      (hd : ((ofNodes ns).environment s applies).Declares s d) : env.Declares s d := by
    obtain ⟨gap, hgap, hdeclared⟩ := hd
    refine ⟨gap, hgap, ?_⟩
    have hsame := henv n hn d.channel.on
    rw [← htoggle] at hsame
    exact hsame.trans hdeclared
  cases n with
  | leaf id negated scope =>
    change env.Shows { id } (applies scope.prelude != negated)
    have hrule : Rule.mk scope (Toggle.settle id (!negated)) ∈ (Node.leaf id negated scope).rules :=
      List.mem_singleton.mpr rfl
    cases happlies : applies scope.prelude with
    | true =>
      rw [Bool.true_bne]
      apply Environment.shows_settle hs
      intro d hd
      exact htransfer (Node.toggle_of_mem_rules hrule hd)
        (declares_rule hs hns hn hrule happlies hd)
    | false =>
      rw [Bool.false_bne]
      apply Environment.shows_settle hs
      intro d hd
      refine htransfer (Node.toggle_of_mem_root (n := .leaf id negated scope) hd)
        (declares_root hs hns hn ?_ hd)
      intro r hr
      rw [Node.rules, List.mem_singleton] at hr
      subst hr
      exact happlies
  | pair id k =>
    intro d hd
    refine htransfer (Node.toggle_of_mem_root (n := .pair id k) hd) (declares_root hs hns hn ?_ hd)
    intro r hr
    cases hr

private theorem join_under (k : Connective) (negated a b : Bool) :
    (k.under negated).join (a != negated) (b != negated) = (k.join a b != negated) := by
  cases k <;> cases negated <;> cases a <;> cases b <;> rfl

mutual

/-- Where the nodes of a condition are realized, its toggle shows its truth value. -/
theorem shows_of_realized {s : Spacing} (hs : s.Blank) {env : Environment}
    {holds : Scope → Bool} :
    {c : Condition Scope} → {id : String} → {negated : Bool} → c.Filled → IsName id →
      (∀ n ∈ nodes id negated c, n.Realized env s holds) →
      env.Shows { id } (c.evaluate holds != negated)
  | .atom scope, id, negated, _, _, h => by
    have hleaf := h (.leaf id negated scope) (by simp [nodes])
    exact hleaf
  | .not c, id, negated, hc, hid, h => by
    rw [nodes] at h
    have hfilled : c.Filled := hc
    have hinner := shows_of_realized hs hfilled hid h
    have hvalue : ((Condition.not c).evaluate holds != negated) =
        (c.evaluate holds != !negated) := by
      rw [Condition.evaluate]
      cases c.evaluate holds <;> cases negated <;> rfl
    rw [hvalue]
    exact hinner
  | .connect k cs, id, negated, hc, hid, h => by
    rw [nodes] at h
    rw [Condition.evaluate]
    exact shows_of_realized_operands hs hc.1 hc.2 hid h

theorem shows_of_realized_operands {s : Spacing} (hs : s.Blank) {env : Environment}
    {holds : Scope → Bool} {k : Connective} :
    {cs : List (Condition Scope)} → {id : String} → {negated : Bool} → cs ≠ [] →
      Condition.FilledList cs → IsName id →
      (∀ n ∈ operandNodes id negated k cs, n.Realized env s holds) →
      env.Shows { id } (Condition.evaluateList holds k cs != negated)
  | [], _, _, hne, _, _, _ => absurd rfl hne
  | [c], id, negated, _, hcs, hid, h => by
    rw [operandNodes] at h
    have hc := shows_of_realized hs hcs.1 hid h
    rw [Condition.evaluateList_singleton]
    exact hc
  | c :: d :: rest, id, negated, _, hcs, hid, h => by
    rw [operandNodes] at h
    have hnameA : IsName (id ++ "A") := isName_append hid (by decide)
    have hnameB : IsName (id ++ "B") := isName_append hid (by decide)
    have hfirst := shows_of_realized hs hcs.1 hnameA fun n hn =>
      h n (List.mem_append_left _ (List.mem_append_left _ hn))
    have hsecond := shows_of_realized_operands hs (by simp) hcs.2 hnameB fun n hn =>
      h n (List.mem_append_left _ (List.mem_append_right _ hn))
    have hwire := h (.pair id (k.under negated))
      (List.mem_append_right _ (List.mem_singleton.mpr rfl))
    have hjoin := Environment.shows_wire hs hwire hnameA.nameable hnameB.nameable hfirst hsecond
    rw [join_under] at hjoin
    exact hjoin

end

theorem isName_of_below {base name : String} (hbase : IsName base) (h : Below base name) :
    IsName name := by
  obtain ⟨path, hpath, hname⟩ := h
  intro c hc
  rw [hname] at hc
  rcases List.mem_append.mp hc with hleft | hright
  · exact hbase c hleft
  · rcases hpath c hright with rfl | rfl <;> decide

/-- A settled channel refers to no other one. -/
theorem channels_of_mem_settle {id : String} {value : Bool} {d : Declaration}
    (hd : d ∈ Toggle.settle id value) : d.signal.channels = [] := by
  simp only [Toggle.settle, List.mem_cons, List.not_mem_nil, or_false] at hd
  rcases hd with rfl | rfl <;> cases value <;> rfl

/-- The channel of a compound refers to its operands only. -/
theorem toggle_of_mem_channels {id : String} {k : Connective} {a b : Toggle} {d : Declaration}
    (hd : d ∈ Toggle.wire id k a b) {c : Channel} (hc : c ∈ d.signal.channels) :
    c.toggle = a.id ∨ c.toggle = b.id := by
  have hsignal : d.signal = Toggle.signal k a b d.channel.on := by
    simp only [Toggle.wire, List.mem_cons, List.not_mem_nil, or_false] at hd
    rcases hd with rfl | rfl <;> rfl
  have hcases : c = a.channel d.channel.on ∨ c = b.channel d.channel.on := by
    rw [hsignal] at hc
    unfold Toggle.signal at hc
    split at hc
    · simpa [Signal.channels] using hc
    · simpa [Signal.channels] using hc
  rcases hcases with rfl | rfl
  · exact Or.inl rfl
  · exact Or.inr rfl

theorem named_of_mem_settle {id : String} (hid : IsName id) {value : Bool} {d : Declaration}
    (hd : d ∈ Toggle.settle id value) : d.Named := by
  intro c hc
  rcases List.mem_cons.mp hc with rfl | hsignal
  · rw [Toggle.toggle_of_mem_settle hd]
    exact hid
  · rw [channels_of_mem_settle hd] at hsignal
    cases hsignal

theorem named_of_mem_wire {id : String} {k : Connective} {a b : Toggle} (hid : IsName id)
    (ha : IsName a.id) (hb : IsName b.id) {d : Declaration} (hd : d ∈ Toggle.wire id k a b) :
    d.Named := by
  intro c hc
  rcases List.mem_cons.mp hc with rfl | hsignal
  · rw [Toggle.toggle_of_mem_wire hd]
    exact hid
  · rcases toggle_of_mem_channels hd hsignal with h | h
    · rw [h]
      exact ha
    · rw [h]
      exact hb

theorem named_of_mem_root {n : Node} (hn : IsName n.id) {d : Declaration} (hd : d ∈ n.root) :
    d.Named := by
  cases n with
  | leaf id negated scope => exact named_of_mem_settle hn hd
  | pair id k =>
    have hwire : d ∈ Toggle.wire id k { id := id ++ "A" } { id := id ++ "B" } := hd
    refine named_of_mem_wire hn ?_ ?_ hwire
    · exact isName_append hn (by decide)
    · exact isName_append hn (by decide)

theorem named_of_mem_rules {n : Node} (hn : IsName n.id) {r : Rule} (hr : r ∈ n.rules)
    {d : Declaration} (hd : d ∈ r.body) : d.Named := by
  cases n with
  | leaf id negated scope =>
    rw [Node.rules, List.mem_singleton] at hr
    subst hr
    exact named_of_mem_settle hn hd
  | pair id k => cases hr

theorem isName_of_mem_hookNodes {hooks : List (String × Condition Scope)}
    (hnames : ∀ hook ∈ hooks, IsName hook.1) : ∀ n ∈ hookNodes hooks, IsName n.id := by
  intro n hn
  obtain ⟨hook, hhook, hn⟩ := List.mem_flatMap.mp hn
  exact isName_of_below (hnames hook hhook) (below_of_mem_nodes n hn)

theorem named_of_mem_ofNodes {ns : List Node} (hnames : ∀ n ∈ ns, IsName n.id) :
    ∀ d ∈ (ofNodes ns).root, d.Named := by
  intro d hd
  obtain ⟨n, hn, hd⟩ := List.mem_flatMap.mp hd
  exact named_of_mem_root (hnames n hn) hd

/-- The printed sheet of named conditions is read back as it was made. -/
theorem read?_hooks {s : Spacing} (hs : s.Blank) {hooks : List (String × Condition Scope)}
    (hnames : ∀ hook ∈ hooks, IsName hook.1)
    (hscopes : ∀ hook ∈ hooks, ∀ scope ∈ hook.2.atoms, scope.Readable) :
    ∃ sheet, TextSheet.read? ((ofHooks hooks).text s) = some sheet ∧
      ∀ applies, sheet.environment applies =
        (ofNodes (hookNodes hooks)).environment s applies := by
  have hname := isName_of_mem_hookNodes hnames
  rw [ofHooks_eq_ofNodes]
  refine ⟨_, read?_text hs (named_of_mem_ofNodes hname) ?_ ?_, environment_textSheet _ s⟩
  · intro r hr
    obtain ⟨n, hn, hr⟩ := List.mem_flatMap.mp hr
    obtain ⟨hook, hhook, hn⟩ := List.mem_flatMap.mp hn
    cases n with
    | leaf id negated scope =>
      rw [Node.rules, List.mem_singleton] at hr
      subst hr
      exact hscopes hook hhook scope (scope_of_mem_nodes hn)
    | pair id k => cases hr
  · intro r hr d hd
    obtain ⟨n, hn, hr⟩ := List.mem_flatMap.mp hr
    exact named_of_mem_rules (hname n hn) hr hd

/-- In the printed sheet of canonical conditions whose toggles do not clash, the channel of the
truth value of each condition is invalid and the other channel is blank. An atom holds where the
prelude of its scope matches. -/
theorem text_shows_truth (hooks : List (String × Condition Scope)) (readable : Bool)
    (applies : String → Bool) (hcanonical : ∀ hook ∈ hooks, hook.2.Canonical)
    (hnames : ∀ hook ∈ hooks, IsName hook.1)
    (hdistinct : ∀ hook ∈ hooks, ∀ other ∈ hooks, ∀ name ∈ toggleNames hook,
      name ∈ toggleNames other → hook = other)
    (hscopes : ∀ hook ∈ hooks, ∀ scope ∈ hook.2.atoms, scope.Readable) :
    ∃ sheet, TextSheet.read? ((ofHooks hooks).text (.ofReadable readable)) = some sheet ∧
      ∀ hook ∈ hooks,
        ((sheet.environment applies).IsInvalid ⟨hook.1, true⟩ ↔
          hook.2.evaluate (fun scope => applies scope.prelude) = true) ∧
        ((sheet.environment applies).IsInvalid ⟨hook.1, false⟩ ↔
          hook.2.evaluate (fun scope => applies scope.prelude) = false) ∧
        ∀ on, ¬ (sheet.environment applies).IsInvalid ⟨hook.1, on⟩ →
          (sheet.environment applies).IsBlank ⟨hook.1, on⟩ := by
  have hs := Spacing.ofReadable_blank readable
  obtain ⟨sheet, hread, henv⟩ := read?_hooks hs hnames hscopes
  refine ⟨sheet, hread, ?_⟩
  intro hook hhook
  have hrealized : ∀ n ∈ nodes hook.1 false hook.2,
      n.Realized (sheet.environment applies) (.ofReadable readable)
        fun scope => applies scope.prelude := by
    intro n hn
    rw [henv applies]
    exact realized_of_agrees hs (distinct_hookNodes hdistinct) (fun _ _ _ => rfl)
      (List.mem_flatMap.mpr ⟨hook, hhook, hn⟩)
  have hshows := shows_of_realized hs (hcanonical hook hhook).filled (hnames hook hhook) hrealized
  rw [Bool.bne_false] at hshows
  have hchannel (on : Bool) : ({ id := hook.1 } : Toggle).channel on = ⟨hook.1, on⟩ := by
    cases on <;> rfl
  have htrue := hshows.isInvalid_iff true
  have hfalse := hshows.isInvalid_iff false
  rw [hchannel] at htrue hfalse
  refine ⟨htrue, hfalse, ?_⟩
  intro on hon
  rw [← hchannel] at hon ⊢
  exact hshows.isBlank_of_not hon

/-- A negated conjunction of a selector and a media query, of which only the selector matches, and
a second condition whose name continues the first one. -/
theorem text_shows_negated_conjunction :
    ∃ sheet, TextSheet.read? ((ofHooks
        [("x", .not (.all [.atom (.selector " .a &"), .atom (.atRule "@media (b)")])),
          ("xA-", .atom (.selector ".c &"))]).text (.ofReadable true)) = some sheet ∧
      (sheet.environment (· == ".a *")).IsInvalid ⟨"x", true⟩ ∧
      (sheet.environment (· == ".a *")).IsBlank ⟨"x", false⟩ ∧
      (sheet.environment (· == ".a *")).IsInvalid ⟨"xA-", false⟩ := by
  obtain ⟨sheet, hread, h⟩ := text_shows_truth
    [("x", .not (.all [.atom (.selector " .a &"), .atom (.atRule "@media (b)")])),
      ("xA-", .atom (.selector ".c &"))] true (· == ".a *")
    (by simp [Condition.Canonical, Condition.CanonicalList, Condition.isNegation]) (by decide)
    (by decide) (by decide)
  have hx := h _ (List.mem_cons_self ..)
  have hy := h _ (List.mem_cons_of_mem _ (List.mem_cons_self ..))
  have htrue : (sheet.environment (· == ".a *")).IsInvalid ⟨"x", true⟩ := hx.1.mpr (by decide)
  refine ⟨sheet, hread, htrue, hx.2.2 false ?_, hy.2.1.mpr (by decide)⟩
  intro hfalse
  exact absurd (hx.2.1.mp hfalse) (by decide)

end Sheet

end ConditionalStyles
