import ConditionalStyles.Proofs.Style.ValueLaw

/-!
The order of a style. Whether a name that is written again moves to the end of the style is of no
consequence for values: two merges that differ in this make the same writes one after the other,
although each of them reads back what it wrote before. Only the place of a name depends on it, which
is that of its last write or that of its first one. Applying overrides last is no more than merging
the same properties and overrides in another arrangement of blocks.
-/
namespace ConditionalStyles

open Json (Value)

namespace Styling

/-- The same merge, where names that are written again move to the end or stay in their place. -/
def moving (s : Styling) (latestLast : Bool) : Styling :=
  { s with order := { s.order with latestLast } }

/-- The names that a change writes, one after the other: both channels of each of its compounds,
then the properties that it edits. -/
def writtenBy (s : Styling) (step : Nat × Change) : List String :=
  ((s.compoundsOf step).flatMap fun node =>
      [(node.channel false).property, (node.channel true).property]) ++
    step.2.properties.names.filter fun name => (s.edit? name step).isSome

/-- The names of all writes, in their order. -/
def written (s : Styling) (changes : List Change) : List String :=
  (s.numberedChanges changes).flatMap s.writtenBy

variable {s : Styling}

theorem written_concat (s : Styling) (changes : List Change) (change : Change) :
    s.written (changes ++ [change]) =
      s.written changes ++ s.writtenBy (changes.countP s.takesNumber, change) := by
  rw [written, numberedChanges_concat, List.flatMap_append, List.flatMap_singleton]
  rfl

theorem writeAll_append (s : Styling) (style : Style) (a b : List (String × Value)) :
    s.writeAll style (a ++ b) = s.writeAll (s.writeAll style a) b :=
  List.foldl_append

/-- What is read back does not depend on the places of names. -/
theorem get?_writeAll_moving (s : Styling) (log : List (String × Value)) (latestLast : Bool) :
    ((s.moving latestLast).writeAll ∅ log).get? = (OrderedMap.ofList log).get? := by
  rw [get?_writeAll, OrderedMap.get?_ofList]
  rfl

theorem names_writeAll_first (s : Styling) (log : List (String × Value)) :
    ((s.moving false).writeAll ∅ log).names = (log.map Prod.fst).eraseDups :=
  OrderedMap.names_ofList log

theorem names_writeAll_last (s : Styling) (log : List (String × Value)) :
    ((s.moving true).writeAll ∅ log).names = (log.map Prod.fst).dedup :=
  OrderedMap.names_moveAll log

/-- What an override writes to a property after the writes that were made before. -/
def overrideWrite? (s : Styling) (t : Toggle) (log : List (String × Value))
    (entry : String × Value) : Option (String × Value) :=
  (s.valueText entry.1 entry.2).map fun text =>
    (entry.1, .string (s.choice t text (s.fallbackText (.ofList log) entry.1)))

theorem overrideProperty_moving (s : Styling) (t : Toggle) (log : List (String × Value))
    (entry : String × Value) (latestLast : Bool) :
    (s.moving latestLast).overrideProperty t ((s.moving latestLast).writeAll ∅ log) entry =
      (s.moving latestLast).writeAll ∅ (log ++ (s.overrideWrite? t log entry).toList) := by
  have hbefore : (s.moving latestLast).fallbackText ((s.moving latestLast).writeAll ∅ log) entry.1 =
      s.fallbackText (.ofList log) entry.1 := by
    rw [fallbackText, get?_writeAll_moving]
    rfl
  have hvalueText : (s.moving latestLast).valueText = s.valueText := rfl
  rw [overrideProperty, hvalueText, overrideWrite?]
  cases s.valueText entry.1 entry.2 with
  | none => rw [Option.map_none, Option.toList_none, List.append_nil]
  | some text =>
    rw [Option.map_some, Option.toList_some, writeAll_append]
    simp only [hbefore]
    rfl

/-- The properties of an override are written in both merges alike, if there are texts for them. -/
theorem exists_writes_override (s : Styling) (t : Toggle) (entries log : List (String × Value)) :
    ∃ more : List (String × Value),
      more.map Prod.fst =
        (entries.filter fun entry => (s.valueText entry.1 entry.2).isSome).map Prod.fst ∧
      ∀ latestLast,
        entries.foldl ((s.moving latestLast).overrideProperty t)
            ((s.moving latestLast).writeAll ∅ log) =
          (s.moving latestLast).writeAll ∅ (log ++ more) := by
  induction entries generalizing log with
  | nil => exact ⟨[], rfl, fun latestLast => by rw [List.append_nil]; rfl⟩
  | cons entry rest ih =>
    obtain ⟨more, hnames, hrest⟩ := ih (log ++ (s.overrideWrite? t log entry).toList)
    refine ⟨(s.overrideWrite? t log entry).toList ++ more, ?_, fun latestLast => ?_⟩
    · rw [List.map_append, hnames, overrideWrite?]
      cases htext : s.valueText entry.1 entry.2 with
      | none => simp [htext]
      | some text => simp [htext]
    · rw [List.foldl_cons, overrideProperty_moving, hrest, List.append_assoc]

theorem filter_edited_set (s : Styling) (number : Nat) (properties : Style) :
    (properties.names.filter fun name => (s.edit? name (number, .set properties)).isSome) =
      properties.entries.map Prod.fst := by
  apply List.filter_eq_self.mpr
  intro name hname
  rw [Option.isSome_iff_ne_none, ne_eq, edit?_eq_none_iff, not_not]
  exact hname

theorem filter_edited_override {o : Override} {c : Condition String}
    (hc : s.resolve? o.condition = some c) (number : Nat) :
    (o.properties.names.filter fun name => (s.edit? name (number, .override o)).isSome) =
      (o.properties.entries.filter fun entry =>
        (s.valueText entry.1 entry.2).isSome).map Prod.fst := by
  rw [OrderedMap.names, List.filter_map]
  congr 1
  apply List.filter_congr
  intro entry hentry
  have hget : o.properties.get? entry.1 = some entry.2 := OrderedMap.get?_eq_some_iff.mpr hentry
  rw [Function.comp_apply, edit?, hc]
  cases htext : s.valueText entry.1 entry.2 with
  | none => simp [hget, htext]
  | some text => simp [hget, htext]

/-- One step of two merges that have made the same writes: they make the same further writes. -/
theorem exists_writes_step {changes : List Change} {log : List (String × Value)}
    (hlog : ∀ latestLast, (changes.foldl (s.moving latestLast).apply {}).style =
      (s.moving latestLast).writeAll ∅ log) (change : Change) :
    ∃ more : List (String × Value),
      more.map Prod.fst = s.writtenBy (changes.countP s.takesNumber, change) ∧
      ∀ latestLast,
        ((s.moving latestLast).apply (changes.foldl (s.moving latestLast).apply {}) change).style =
          (s.moving latestLast).writeAll ∅ (log ++ more) := by
  cases change with
  | set properties =>
    refine ⟨properties.entries, ?_, fun latestLast => ?_⟩
    · exact (filter_edited_set s _ properties).symm
    · rw [apply, hlog, writeAll_append]
  | override o =>
    cases hc : s.resolve? o.condition with
    | none =>
      refine ⟨[], ?_, fun latestLast => ?_⟩
      · simp [writtenBy, compoundsOf, edit?, hc]
      · have hnone : (s.moving latestLast).resolve? o.condition = none := hc
        rw [apply, applyOverride, hnone, hlog, List.append_nil]
    | some c =>
      -- The number of the toggle is counted off the changes, so that it is the same in both merges.
      let number := changes.countP s.takesNumber
      let ds := (c.compounds (Identifier.numbered number)).flatMap Compound.declarations
      let declared : List (String × Value) :=
        ds.map fun d => (d.channel.property, .string (d.signal.text s.spacing))
      obtain ⟨more, hnames, hmore⟩ := exists_writes_override s
        (c.toggleUnder (Identifier.numbered number)) o.properties.entries (log ++ declared)
      refine ⟨declared ++ more, ?_, fun latestLast => ?_⟩
      · rw [List.map_append, hnames, ← filter_edited_override hc number, writtenBy]
        congr 1
        simp only [declared, ds, List.map_map, List.map_flatMap, compoundsOf, hc]
        rfl
      · have hsome : (s.moving latestLast).resolve? o.condition = some c := hc
        rw [style_apply_override hsome, numbered_run, hlog, declare, ← writeAll_append, overrideAll,
          ← List.append_assoc]
        exact hmore latestLast

/-- Two merges that differ in the places of names make the same writes. -/
theorem exists_log (s : Styling) (changes : List Change) :
    ∃ log : List (String × Value), log.map Prod.fst = s.written changes ∧
      ∀ latestLast, (changes.foldl (s.moving latestLast).apply {}).style =
        (s.moving latestLast).writeAll ∅ log := by
  induction changes using List.reverseRecOn with
  | nil => exact ⟨[], rfl, fun _ => rfl⟩
  | append_singleton changes change ih =>
    obtain ⟨log, hnames, hlog⟩ := ih
    obtain ⟨more, hmore, hstep⟩ := exists_writes_step hlog change
    refine ⟨log ++ more, ?_, fun latestLast => ?_⟩
    · rw [List.map_append, hnames, hmore, written_concat]
    · rw [List.foldl_append, List.foldl_cons, List.foldl_nil, hstep]

/-- Whether names move when they are written again changes the order of a style and nothing else.
Every name has the same value either way; the names stand in the order of their last writes if they
move, and in that of their first writes if they stay, channels of toggles included. -/
theorem order_moves_names_only (s : Styling) (blocks : List Block) :
    let moved := (s.moving true).merge blocks
    let kept := (s.moving false).merge blocks
    let writes := s.written (s.changes blocks)
    (∀ name, moved.get? name = kept.get? name) ∧
      moved.names = writes.dedup ∧ kept.names = writes.eraseDups := by
  intro moved kept writes
  obtain ⟨log, hnames, hlog⟩ := exists_log s (s.changes blocks)
  have hmoved : moved = (s.moving true).writeAll ∅ log := hlog true
  have hkept : kept = (s.moving false).writeAll ∅ log := hlog false
  refine ⟨fun name => ?_, ?_, ?_⟩
  · rw [hmoved, hkept, get?_writeAll_moving, get?_writeAll_moving]
  · rw [hmoved, names_writeAll_last, hnames]
  · rw [hkept, names_writeAll_first, hnames]

-- The channels of the conjunction are written between the two writes of the color.
example :
    let s : Styling := ⟨.ofList [("a", "x"), ("b", "y")], .unset, {}, .compact, .generic⟩
    let both : Override := ⟨.all [.atom "a", .atom "b"], .ofList [("color", .string "blue")]⟩
    let block : Block := ⟨.ofList [("color", .string "red"), ("margin", .string "0")], [both]⟩
    s.written (s.changes [block]) = ["color", "margin", "--cond0-0", "--cond0-1", "color"] ∧
      ((s.moving true).merge [block]).names = ["margin", "--cond0-0", "--cond0-1", "color"] ∧
      ((s.moving false).merge [block]).names = ["color", "margin", "--cond0-0", "--cond0-1"] := by
  decide +kernel

end Styling

/-- Every block without its overrides, then each override as a block of its own. -/
def Block.separate (blocks : List Block) : List Block :=
  blocks.map (fun block => { properties := block.properties }) ++
    (blocks.flatMap Block.overrides).map fun o => { overrides := [o] }

/-- The entries that blocks set, one after the other. -/
def Block.plainEntries (blocks : List Block) : List (String × Value) :=
  blocks.flatMap fun block => block.properties.entries

theorem Block.plainEntries_cons (block : Block) (blocks : List Block) :
    plainEntries (block :: blocks) = block.properties.entries ++ plainEntries blocks :=
  List.flatMap_cons

/-- A merge on its way through the blocks, with the overrides that were put aside. -/
structure Passage where
  progress : Progress := {}
  aside : List Override := []

namespace Styling

/-- The same merge, where overrides are applied after everything else or with their blocks. -/
def deferring (s : Styling) (overridesLast : Bool) : Styling :=
  { s with order := { s.order with overridesLast } }

/-- Sets the properties of a block. Its overrides are applied at once, or put aside. -/
def pass (s : Styling) (p : Passage) (block : Block) : Passage :=
  let progress := { p.progress with
    style := s.writeAll p.progress.style block.properties.entries }
  if s.order.overridesLast then { progress, aside := p.aside ++ block.overrides }
  else { progress := block.overrides.foldl s.applyOverride progress, aside := p.aside }

/-- Passes all blocks and then applies what was put aside. -/
def passAll (s : Styling) (blocks : List Block) : Progress :=
  let p := blocks.foldl s.pass {}
  p.aside.foldl s.applyOverride p.progress

theorem foldl_sets (s : Styling) (progress : Progress) (blocks : List Block) :
    (blocks.map fun block => Change.set block.properties).foldl s.apply progress =
      { progress with style := s.writeAll progress.style (Block.plainEntries blocks) } := by
  induction blocks generalizing progress with
  | nil => rfl
  | cons block rest ih =>
    rw [List.map_cons, List.foldl_cons, ih, Block.plainEntries_cons, writeAll_append]
    rfl

theorem foldl_overrides (s : Styling) (progress : Progress) (os : List Override) :
    (os.map Change.override).foldl s.apply progress = os.foldl s.applyOverride progress :=
  List.foldl_map

/-- Where overrides are last, a merge writes the properties of all blocks and then applies all
overrides. -/
theorem run_deferring (s : Styling) (blocks : List Block) :
    ((s.deferring true).changes blocks).foldl (s.deferring true).apply {} =
      (blocks.flatMap Block.overrides).foldl s.applyOverride
        { style := s.writeAll ∅ (Block.plainEntries blocks) } := by
  have hoverrides : (blocks.flatMap fun block => block.overrides.map Change.override) =
      (blocks.flatMap Block.overrides).map Change.override := List.map_flatMap.symm
  change (Change.ofBlocks true blocks).foldl s.apply {} = _
  rw [Change.ofBlocks, if_pos rfl, List.foldl_append, foldl_sets, hoverrides, foldl_overrides]

/-- Where overrides are last, no toggle is numbered on the way: all overrides are put aside. -/
theorem foldl_pass_deferring (s : Styling) (p : Passage) (blocks : List Block) :
    blocks.foldl (s.deferring true).pass p =
      { progress := { p.progress with
          style := s.writeAll p.progress.style (Block.plainEntries blocks) }
        aside := p.aside ++ blocks.flatMap Block.overrides } := by
  induction blocks generalizing p with
  | nil =>
    rw [List.flatMap_nil, List.append_nil]
    rfl
  | cons block rest ih =>
    rw [List.foldl_cons, ih, Block.plainEntries_cons, List.flatMap_cons, writeAll_append,
      ← List.append_assoc]
    rfl

/-- Where overrides come with their blocks, nothing is put aside. -/
theorem foldl_pass_in_place (s : Styling) (p : Passage) (blocks : List Block) :
    blocks.foldl (s.deferring false).pass p =
      { p with progress := (blocks.flatMap Change.ofBlock).foldl s.apply p.progress } := by
  induction blocks generalizing p with
  | nil => rfl
  | cons block rest ih =>
    rw [List.foldl_cons, ih, List.flatMap_cons, List.foldl_append, Change.ofBlock, List.foldl_cons,
      foldl_overrides]
    rfl

theorem passAll_deferring (s : Styling) (blocks : List Block) :
    (s.deferring true).passAll blocks =
      (blocks.flatMap Block.overrides).foldl s.applyOverride
        { style := s.writeAll ∅ (Block.plainEntries blocks) } := by
  rw [passAll, foldl_pass_deferring]
  rfl

theorem passAll_in_place (s : Styling) (blocks : List Block) :
    (s.deferring false).passAll blocks = (blocks.flatMap Change.ofBlock).foldl s.apply {} := by
  rw [passAll, foldl_pass_in_place]
  rfl

theorem passAll_eq_run (s : Styling) (blocks : List Block) (overridesLast : Bool) :
    (s.deferring overridesLast).passAll blocks =
      ((s.deferring overridesLast).changes blocks).foldl (s.deferring overridesLast).apply {} := by
  cases overridesLast with
  | false => exact passAll_in_place s blocks
  | true => rw [passAll_deferring, run_deferring]

/-- A block that sets nothing does not show. -/
theorem foldl_separate (s : Styling) (progress : Progress) (os : List Override) :
    ((os.map fun o => ({ overrides := [o] } : Block)).flatMap Change.ofBlock).foldl s.apply
      progress = os.foldl s.applyOverride progress := by
  induction os generalizing progress with
  | nil => rfl
  | cons o rest ih => exact ih (s.applyOverride progress o)

theorem run_separate (s : Styling) (blocks : List Block) :
    ((Block.separate blocks).flatMap Change.ofBlock).foldl s.apply {} =
      (blocks.flatMap Block.overrides).foldl s.applyOverride
        { style := s.writeAll ∅ (Block.plainEntries blocks) } := by
  have hplain : (blocks.map fun block => ({ properties := block.properties } : Block)).flatMap
      Change.ofBlock = blocks.map fun block => Change.set block.properties := by
    rw [List.flatMap_map]
    exact List.map_eq_flatMap.symm
  rw [Block.separate, List.flatMap_append, List.foldl_append, foldl_separate, hplain, foldl_sets]

/-- Applying overrides last is a rearrangement of the blocks. A merge may pass the blocks one by one
and put overrides aside; it comes to the same style and as many toggles as merging all properties
in blocks of their own, and after them all overrides, in place. So nothing but the sequence of
properties and that of overrides counts. -/
theorem overrides_last_rearranges (s : Styling) (blocks : List Block) :
    let last := s.deferring true
    let inPlace := s.deferring false
    (∀ overridesLast, (s.deferring overridesLast).merge blocks =
        ((s.deferring overridesLast).passAll blocks).style) ∧
      last.passAll blocks = inPlace.passAll (Block.separate blocks) ∧
      last.merge blocks = inPlace.merge (Block.separate blocks) ∧
      ∀ blocks' : List Block, Block.plainEntries blocks = Block.plainEntries blocks' →
        blocks.flatMap Block.overrides = blocks'.flatMap Block.overrides →
          last.merge blocks = last.merge blocks' := by
  intro last inPlace
  have hpass : ∀ overridesLast blocks, (s.deferring overridesLast).merge blocks =
      ((s.deferring overridesLast).passAll blocks).style := by
    intro overridesLast blocks
    rw [passAll_eq_run]
    rfl
  have hseparate : last.passAll blocks = inPlace.passAll (Block.separate blocks) := by
    rw [passAll_deferring, passAll_in_place, run_separate]
  refine ⟨fun overridesLast => hpass overridesLast blocks, hseparate, ?_, ?_⟩
  · rw [hpass true, hpass false, ← hseparate]
  · intro blocks' hentries hoverrides
    rw [hpass true, hpass true, passAll_deferring, passAll_deferring, hentries, hoverrides]

/-- The same three properties and two overrides in blocks of different make. In place, the first
override would be set over by the block after it. -/
theorem overrides_last_rearranges_regrouped :
    let s : Styling := ⟨.ofList [("a", "x"), ("b", "y")], .unset, {}, .compact, .generic⟩
    let both : Override := ⟨.all [.atom "a", .atom "b"], .ofList [("color", .string "blue")]⟩
    let off : Override := ⟨.not (.atom "a"), .ofList [("margin", .string "1px")]⟩
    let blocks : List Block := [
      ⟨.ofList [("color", .string "red")], [both]⟩,
      ⟨.ofList [("margin", .string "0"), ("color", .string "green")], [off]⟩]
    let blocks' : List Block := [
      ⟨∅, [both, off]⟩,
      ⟨.ofList [("color", .string "red"), ("margin", .string "0")], []⟩,
      ⟨.ofList [("color", .string "green")], []⟩]
    Block.plainEntries blocks = Block.plainEntries blocks' ∧
      (s.deferring true).merge blocks = (s.deferring true).merge blocks' ∧
      (((s.deferring true).merge blocks').get? "color").bind Value.string? =
        some "var(--cond0-1,blue)var(--cond0-0,green)" ∧
      (((s.deferring false).merge blocks).get? "color").bind Value.string? = some "green" := by
  intro s both off blocks blocks'
  have hentries : Block.plainEntries blocks = Block.plainEntries blocks' := rfl
  refine ⟨hentries, (overrides_last_rearranges s blocks).2.2.2 blocks' hentries rfl, ?_, ?_⟩
  · decide +kernel
  · decide +kernel

end Styling

end ConditionalStyles
