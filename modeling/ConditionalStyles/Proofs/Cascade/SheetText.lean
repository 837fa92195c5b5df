import ConditionalStyles.Proofs.Cascade.Truth
import ConditionalStyles.Sheet

/-!
Style sheets read from their texts. A rule is a prelude and a block of declarations; a prelude that
starts with `@` has a block around a rule for all elements instead. The first rule is for all
elements; each further rule counts where its prelude matches. A printed sheet is read back, whatever
blanks stand between its parts.
-/
namespace ConditionalStyles

open Text Cascade

namespace Cascade

/-- A rule as its text spells it. -/
structure TextRule where
  prelude : String
  body : List (String × String)
  deriving DecidableEq, Repr

structure TextSheet where
  root : List (String × String)
  rules : List TextRule
  deriving DecidableEq, Repr

namespace TextSheet

/-- A name and a value with a colon between them. -/
def declaration? (cs : List Char) : Option (String × String) :=
  match cs.dropWhile (· != ':') with
  | _ :: value => some (String.ofList (trim (cs.takeWhile (· != ':'))), String.ofList value)
  | [] => none

/-- The declarations in the pieces between semicolons; blank pieces do not count. -/
def declarations? : List (List Char) → Option (List (String × String))
  | [] => some []
  | piece :: rest =>
    if Blank piece then declarations? rest
    else
      match declaration? piece, declarations? rest with
      | some d, some ds => some (d :: ds)
      | _, _ => none

def rule? (prelude block : List Char) : Option TextRule :=
  (declarations? (block.splitOn ';')).map fun body => ⟨String.ofList (trim prelude), body⟩

/-- The rules in the pieces between closing braces. A block in a block takes two of them, with
nothing in between. -/
def rules? : List (List Char) → Option (List TextRule)
  | [] => none
  | [last] => if Blank last then some [] else none
  | piece :: next :: rest =>
    match piece.splitOn '\x7b' with
    | [prelude, block] =>
      if (trim prelude).head? = some '@' then none
      else
        match rule? prelude block, rules? (next :: rest) with
        | some r, some rs => some (r :: rs)
        | _, _ => none
    | [prelude, inner, block] =>
      if trim inner = ['*'] ∧ Blank next then
        match rule? prelude block, rules? rest with
        | some r, some rs => some (r :: rs)
        | _, _ => none
      else none
    | _ => none

def read? (text : String) : Option TextSheet :=
  match rules? (text.toList.splitOn '\x7d') with
  | some (root :: rules) => if root.prelude = "*" then some ⟨root.body, rules⟩ else none
  | _ => none

/-- The rule for all elements comes first, then the rules that match. -/
def declarations (sheet : TextSheet) (applies : String → Bool) : List (String × String) :=
  sheet.root ++ (sheet.rules.filter fun rule => applies rule.prelude).flatMap (·.body)

def environment (sheet : TextSheet) (applies : String → Bool) : Environment :=
  overwrite Environment.empty (sheet.declarations applies)

end TextSheet

/-- Letters, digits, hyphens and underscores. -/
def isNameChar (c : Char) : Bool := c.isAlphanum || c == '-' || c == '_'

def IsName (s : String) : Prop := ∀ c ∈ s.toList, isNameChar c = true

instance (s : String) : Decidable (IsName s) := List.decidableBAll _ s.toList

/-- No brace that could be taken for one of a block. -/
def Unbraced (cs : List Char) : Prop := ∀ c ∈ cs, c ≠ '\x7b' ∧ c ≠ '\x7d'

instance (cs : List Char) : Decidable (Unbraced cs) := List.decidableBAll _ cs

end Cascade

namespace Signal

def channels : Signal → List Channel
  | invalid => []
  | blank => []
  | both a b => [a, b]
  | either a b => [a, b]

end Signal

namespace Declaration

/-- Every toggle that the declaration mentions has a plain name. -/
def Named (d : Declaration) : Prop :=
  ∀ c ∈ d.channel :: d.signal.channels, IsName c.toggle

def entry (s : Spacing) (d : Declaration) : String × String :=
  (d.channel.property, s.space ++ d.signal.text s)

end Declaration

namespace Scope

/-- The prelude of the scope, without blanks around it. -/
def prelude (scope : Scope) : String := String.ofList (trim scope.universal.toList)

/-- The prelude of the scope can be told from the blocks around it. -/
structure Readable (scope : Scope) : Prop where
  unbraced : Unbraced scope.universal.toList
  plain : ∀ source, scope = .selector source → scope.prelude.toList.head? ≠ some '@'

instance : (scope : Scope) → Decidable scope.Readable
  | .selector source =>
    decidable_of_iff (Unbraced (selector source).universal.toList ∧
        (selector source).prelude.toList.head? ≠ some '@')
      ⟨fun h => ⟨h.1, fun _ _ => h.2⟩, fun h => ⟨h.unbraced, h.plain source rfl⟩⟩
  | .atRule source =>
    decidable_of_iff (Unbraced (atRule source).universal.toList)
      ⟨fun h => ⟨h, fun _ heq => by cases heq⟩, fun h => h.unbraced⟩

end Scope

def Rule.entry (s : Spacing) (r : Rule) : TextRule :=
  ⟨r.scope.prelude, r.body.map (Declaration.entry s)⟩

namespace Cascade

/-- Neither a semicolon nor a brace, so that the character stays within its piece. -/
def isInert (c : Char) : Bool := c != ';' && c != '\x7b' && c != '\x7d'

def Inert (cs : List Char) : Prop := ∀ c ∈ cs, isInert c = true

instance (cs : List Char) : Decidable (Inert cs) := List.decidableBAll _ cs

theorem inert_append {a b : List Char} (ha : Inert a) (hb : Inert b) : Inert (a ++ b) := by
  intro c hc
  rcases List.mem_append.mp hc with h | h
  · exact ha c h
  · exact hb c h

theorem Inert.not_mem {cs : List Char} (h : Inert cs) {c : Char} (hc : isInert c = false) :
    c ∉ cs := by
  intro hmem
  rw [h c hmem] at hc
  cases hc

theorem Inert.of_blank {b : List Char} (hb : Text.Blank b) : Inert b := by
  intro c hc
  have hblank := hb c hc
  simp only [isInert, Bool.and_eq_true, bne_iff_ne]
  refine ⟨⟨?_, ?_⟩, ?_⟩ <;> rintro rfl <;> exact absurd hblank (by decide)

theorem unbraced_append {a b : List Char} (ha : Unbraced a) (hb : Unbraced b) :
    Unbraced (a ++ b) := by
  intro c hc
  rcases List.mem_append.mp hc with h | h
  · exact ha c h
  · exact hb c h

theorem Inert.unbraced {cs : List Char} (h : Inert cs) : Unbraced cs := by
  intro c hc
  have hne := h c hc
  simp only [isInert, Bool.and_eq_true, bne_iff_ne] at hne
  exact ⟨hne.1.2, hne.2⟩

theorem Unbraced.of_blank {b : List Char} (hb : Text.Blank b) : Unbraced b :=
  (Inert.of_blank hb).unbraced

theorem isNameChar_ne {c d : Char} (hc : isNameChar c = true) (hd : isNameChar d = false) :
    c ≠ d := by
  rintro rfl
  rw [hc] at hd
  cases hd

theorem IsName.nameable {s : String} (h : IsName s) : Nameable s.toList := by
  apply nameable_of_forall_ne
  intro c hc
  exact ⟨isNameChar_ne (h c hc) (by decide), isNameChar_ne (h c hc) (by decide),
    isNameChar_ne (h c hc) (by decide)⟩

theorem isName_append {s t : String} (hs : IsName s) (ht : IsName t) : IsName (s ++ t) := by
  intro c hc
  rw [String.toList_append] at hc
  rcases List.mem_append.mp hc with h | h
  · exact hs c h
  · exact ht c h

theorem isName_property {c : Channel} (h : IsName c.toggle) : IsName c.property := by
  have hopen : IsName "--" := by decide
  have hclose : IsName (if c.on then "-1" else "-0") := by cases c.on <;> decide
  exact isName_append (isName_append hopen h) hclose

theorem IsName.inert {s : String} (h : IsName s) : Inert s.toList := by
  intro c hc
  simp only [isInert, Bool.and_eq_true, bne_iff_ne]
  exact ⟨⟨isNameChar_ne (h c hc) (by decide), isNameChar_ne (h c hc) (by decide)⟩,
    isNameChar_ne (h c hc) (by decide)⟩

theorem inert_reference {c : Channel} (h : IsName c.toggle) : Inert c.reference.toList := by
  have hopen : Inert "var(".toList := by decide
  have hclose : Inert ")".toList := by decide
  have hall := inert_append (inert_append hopen (isName_property h).inert) hclose
  simpa [Channel.reference] using hall

theorem inert_signal {s : Spacing} (hs : s.Blank) {signal : Signal}
    (h : ∀ c ∈ signal.channels, IsName c.toggle) : Inert (signal.text s).toList := by
  cases signal with
  | invalid =>
    simp only [Signal.text]
    decide
  | blank => exact Inert.of_blank hs.blank
  | both a b =>
    have ha := inert_reference (h a (List.mem_cons_self ..))
    have hb := inert_reference (h b (List.mem_cons_of_mem _ (List.mem_cons_self ..)))
    have hall := inert_append ha (inert_append (Inert.of_blank hs.space) hb)
    simpa [Signal.text] using hall
  | either a b =>
    have ha := (isName_property (h a (List.mem_cons_self ..))).inert
    have hb := inert_reference (h b (List.mem_cons_of_mem _ (List.mem_cons_self ..)))
    have hopen : Inert "var(".toList := by decide
    have hcomma : Inert ",".toList := by decide
    have hclose : Inert ")".toList := by decide
    have hargs := inert_append (inert_append hopen ha) hcomma
    have hrest := inert_append (Inert.of_blank hs.space) (inert_append hb hclose)
    have hall := inert_append hargs hrest
    simpa [Signal.text, Channel.referenceOr] using hall

namespace TextSheet

theorem declaration?_append {pre name value : List Char} (hpre : Text.Blank pre)
    (hname : ∀ c ∈ name, isNameChar c = true) :
    declaration? (pre ++ (name ++ ':' :: value)) =
      some (String.ofList (trim name), String.ofList value) := by
  have hpass : ∀ c ∈ pre ++ name, (c != ':') = true := by
    intro c hc
    rw [bne_iff_ne]
    rcases List.mem_append.mp hc with h | h
    · rintro rfl
      exact absurd (hpre _ h) (by decide)
    · exact isNameChar_ne (hname c h) (by decide)
  rw [← List.append_assoc, declaration?, List.dropWhile_append_of_pos hpass,
    List.takeWhile_append_of_pos hpass]
  simp [trim_blank_append hpre]

end TextSheet

end Cascade

open TextSheet

theorem Declaration.text_toList (s : Spacing) (level : Nat) (d : Declaration) :
    (d.text s level).toList =
      (s.indentation level).toList ++ (d.channel.property.toList ++
        ':' :: (d.entry s).2.toList) ++ ';' :: s.newline.toList := by
  simp [Declaration.text, Declaration.entry]

theorem inert_declaration {s : Spacing} (hs : s.Blank) (level : Nat) {d : Declaration}
    (h : d.Named) : Inert ((s.indentation level).toList ++
      (d.channel.property.toList ++ ':' :: (d.entry s).2.toList)) := by
  have hname := isName_property (h _ List.mem_cons_self)
  have hsignal := inert_signal hs fun c hc => h c (List.mem_cons_of_mem _ hc)
  have hcolon : Inert [':'] := by decide
  have hvalue : Inert (d.entry s).2.toList := by
    have hall := inert_append (Inert.of_blank hs.space) hsignal
    simpa [Declaration.entry] using hall
  exact inert_append (Inert.of_blank (hs.indentation level))
    (inert_append hname.inert (inert_append hcolon hvalue))

/-- The pieces between semicolons give back the declarations, with blanks around them. -/
theorem declarations?_declarationsText {s : Spacing} (hs : s.Blank) (level : Nat)
    {ds : List Declaration} (h : ∀ d ∈ ds, d.Named) {pre post : List Char}
    (hpre : Text.Blank pre) (hpost : Text.Blank post) :
    declarations? ((pre ++ (Sheet.declarationsText s level ds).toList ++ post).splitOn ';') =
      some (ds.map (Declaration.entry s)) := by
  induction ds generalizing pre with
  | nil =>
    have hblank : Text.Blank (pre ++ post) := blank_append hpre hpost
    have hsplit : (pre ++ post).splitOn ';' = [pre ++ post] :=
      List.splitOn_eq_singleton ((Inert.of_blank hblank).not_mem (by decide))
    simp [Sheet.declarationsText, hsplit, declarations?, hblank]
  | cons d ds ih =>
    have hd := h d List.mem_cons_self
    have hname := isName_property (hd _ List.mem_cons_self)
    have hgap : Text.Blank (pre ++ (s.indentation level).toList) :=
      blank_append hpre (hs.indentation level)
    have hpiece : Inert (pre ++ (s.indentation level).toList ++
        (d.channel.property.toList ++ ':' :: (d.entry s).2.toList)) := by
      rw [List.append_assoc]
      exact inert_append (Inert.of_blank hpre) (inert_declaration hs level hd)
    have hnot : ¬ Text.Blank (pre ++ (s.indentation level).toList ++
        (d.channel.property.toList ++ ':' :: (d.entry s).2.toList)) := by
      intro hblank
      have hcolon := hblank ':' (by simp)
      exact absurd hcolon (by decide)
    have htext : pre ++ (Sheet.declarationsText s level (d :: ds)).toList ++ post =
        (pre ++ (s.indentation level).toList ++
          (d.channel.property.toList ++ ':' :: (d.entry s).2.toList)) ++
        ';' :: (s.newline.toList ++ (Sheet.declarationsText s level ds).toList ++ post) := by
      simp [Sheet.declarationsText, Declaration.text_toList]
    rw [htext, List.splitOn_append_cons_self_of_not_mem (hpiece.not_mem (by decide)),
      declarations?, if_neg hnot, declaration?_append hgap hname,
      ih (fun e he => h e (List.mem_cons_of_mem d he)) hs.newline]
    simp [Declaration.entry, d.channel.trim_property]

theorem rules?_plain {prelude block : List Char} {pieces : List (List Char)} {r : TextRule}
    {rs : List TextRule} (hprelude : '\x7b' ∉ prelude) (hblock : '\x7b' ∉ block)
    (hat : (trim prelude).head? ≠ some '@') (hr : rule? prelude block = some r)
    (hrs : rules? pieces = some rs) :
    rules? ((prelude ++ '\x7b' :: block) :: pieces) = some (r :: rs) := by
  have hsplit : (prelude ++ '\x7b' :: block).splitOn '\x7b' = [prelude, block] := by
    rw [List.splitOn_append_cons_self_of_not_mem hprelude, List.splitOn_eq_singleton hblock]
  cases pieces with
  | nil => simp [rules?] at hrs
  | cons next rest => simp only [rules?, hsplit, if_neg hat, hr, hrs]

theorem rules?_group {prelude inner block next : List Char} {pieces : List (List Char)}
    {r : TextRule} {rs : List TextRule} (hprelude : '\x7b' ∉ prelude) (hinner : '\x7b' ∉ inner)
    (hblock : '\x7b' ∉ block) (hall : trim inner = ['*']) (hnext : Text.Blank next)
    (hr : rule? prelude block = some r) (hrs : rules? pieces = some rs) :
    rules? ((prelude ++ '\x7b' :: (inner ++ '\x7b' :: block)) :: next :: pieces) =
      some (r :: rs) := by
  have hsplit : (prelude ++ '\x7b' :: (inner ++ '\x7b' :: block)).splitOn '\x7b' =
      [prelude, inner, block] := by
    rw [List.splitOn_append_cons_self_of_not_mem hprelude,
      List.splitOn_append_cons_self_of_not_mem hinner, List.splitOn_eq_singleton hblock]
  simp only [rules?, hsplit, if_pos (And.intro hall hnext), hr, hrs]

theorem blockText_toList (s : Spacing) (level : Nat) (head body : String) :
    (Sheet.blockText s level head body).toList =
      ((s.indentation level).toList ++ head.toList ++ s.space.toList) ++
        '\x7b' :: (s.newline.toList ++ body.toList ++ (s.indentation level).toList) ++
        '\x7d' :: s.newline.toList := by
  simp [Sheet.blockText]

section Reading

variable {s : Spacing} (hs : s.Blank)

include hs in
theorem unbraced_declarationsText (level : Nat) {ds : List Declaration} (h : ∀ d ∈ ds, d.Named) :
    Unbraced (Sheet.declarationsText s level ds).toList := by
  intro c hc
  rw [Sheet.declarationsText, String.toList_join, List.flatMap_map] at hc
  obtain ⟨d, hd, hcd⟩ := List.mem_flatMap.mp hc
  rw [Declaration.text_toList] at hcd
  rcases List.mem_append.mp hcd with hleft | hright
  · exact (inert_declaration hs level (h d hd)).unbraced c hleft
  · rcases List.mem_cons.mp hright with rfl | hnewline
    · decide
    · exact Unbraced.of_blank hs.newline c hnewline

include hs in
theorem rule?_declarationsText {pre head post : List Char} (hpre : Text.Blank pre)
    (hpost : Text.Blank post) (level : Nat) {ds : List Declaration} (h : ∀ d ∈ ds, d.Named) :
    rule? (pre ++ head ++ s.space.toList)
        (s.newline.toList ++ (Sheet.declarationsText s level ds).toList ++ post) =
      some ⟨String.ofList (trim head), ds.map (Declaration.entry s)⟩ := by
  rw [rule?, declarations?_declarationsText hs level h hs.newline hpost,
    trim_append_blank _ hs.space, trim_blank_append hpre]
  rfl

include hs in
/-- A rule with its block of declarations, and further rules after it. -/
theorem rules?_blockText {pre : List Char} (hpre : Text.Blank pre) {head : String}
    (hhead : Unbraced head.toList) (hat : (trim head.toList).head? ≠ some '@')
    {ds : List Declaration} (h : ∀ d ∈ ds, d.Named) {after : List Char} {rs : List TextRule}
    (hrs : rules? ((s.newline.toList ++ after).splitOn '\x7d') = some rs) :
    rules? ((pre ++ (Sheet.blockText s 0 head (Sheet.declarationsText s 1 ds)).toList ++
        after).splitOn '\x7d') =
      some (⟨String.ofList (trim head.toList), ds.map (Declaration.entry s)⟩ :: rs) := by
  have hgap : Text.Blank (pre ++ (s.indentation 0).toList) :=
    blank_append hpre (hs.indentation 0)
  have hprelude : Unbraced (pre ++ (s.indentation 0).toList ++ head.toList ++ s.space.toList) :=
    unbraced_append (unbraced_append (Unbraced.of_blank hgap) hhead) (Unbraced.of_blank hs.space)
  have hblock : Unbraced (s.newline.toList ++ (Sheet.declarationsText s 1 ds).toList ++
      (s.indentation 0).toList) :=
    unbraced_append (unbraced_append (Unbraced.of_blank hs.newline)
      (unbraced_declarationsText hs 1 h)) (Unbraced.of_blank (hs.indentation 0))
  have htext : pre ++ (Sheet.blockText s 0 head (Sheet.declarationsText s 1 ds)).toList ++ after =
      (pre ++ (s.indentation 0).toList ++ head.toList ++ s.space.toList ++
        '\x7b' :: (s.newline.toList ++ (Sheet.declarationsText s 1 ds).toList ++
          (s.indentation 0).toList)) ++ '\x7d' :: (s.newline.toList ++ after) := by
    simp [blockText_toList]
  have hpiece : '\x7d' ∉ pre ++ (s.indentation 0).toList ++ head.toList ++ s.space.toList ++
      '\x7b' :: (s.newline.toList ++ (Sheet.declarationsText s 1 ds).toList ++
        (s.indentation 0).toList) := by
    intro hmem
    rcases List.mem_append.mp hmem with hleft | hright
    · exact (hprelude _ hleft).2 rfl
    · rcases List.mem_cons.mp hright with heq | hin
      · exact absurd heq (by decide)
      · exact (hblock _ hin).2 rfl
  rw [htext, List.splitOn_append_cons_self_of_not_mem hpiece]
  refine rules?_plain (fun hmem => (hprelude _ hmem).1 rfl) (fun hmem => (hblock _ hmem).1 rfl)
    ?_ (rule?_declarationsText hs hgap (hs.indentation 0) 1 h) hrs
  rw [trim_append_blank _ hs.space, trim_blank_append hgap]
  exact hat

include hs in
/-- A rule around a rule for all elements, and further rules after it. -/
theorem rules?_groupText {pre : List Char} (hpre : Text.Blank pre) {head : String}
    (hhead : Unbraced head.toList) {ds : List Declaration} (h : ∀ d ∈ ds, d.Named)
    {after : List Char} {rs : List TextRule}
    (hrs : rules? ((s.newline.toList ++ after).splitOn '\x7d') = some rs) :
    rules? ((pre ++ (Sheet.blockText s 0 head
        (Sheet.blockText s 1 "*" (Sheet.declarationsText s 2 ds))).toList ++
        after).splitOn '\x7d') =
      some (⟨String.ofList (trim head.toList), ds.map (Declaration.entry s)⟩ :: rs) := by
  have hgap : Text.Blank (pre ++ (s.indentation 0).toList) :=
    blank_append hpre (hs.indentation 0)
  have hlead : Text.Blank (s.newline.toList ++ (s.indentation 1).toList) :=
    blank_append hs.newline (hs.indentation 1)
  have hnext : Text.Blank (s.newline.toList ++ (s.indentation 0).toList) :=
    blank_append hs.newline (hs.indentation 0)
  have hprelude : Unbraced (pre ++ (s.indentation 0).toList ++ head.toList ++ s.space.toList) :=
    unbraced_append (unbraced_append (Unbraced.of_blank hgap) hhead) (Unbraced.of_blank hs.space)
  have hinner : Unbraced (s.newline.toList ++ (s.indentation 1).toList ++ ['*'] ++
      s.space.toList) :=
    unbraced_append (unbraced_append (Unbraced.of_blank hlead) (by decide))
      (Unbraced.of_blank hs.space)
  have hblock : Unbraced (s.newline.toList ++ (Sheet.declarationsText s 2 ds).toList ++
      (s.indentation 1).toList) :=
    unbraced_append (unbraced_append (Unbraced.of_blank hs.newline)
      (unbraced_declarationsText hs 2 h)) (Unbraced.of_blank (hs.indentation 1))
  have htext : pre ++ (Sheet.blockText s 0 head
        (Sheet.blockText s 1 "*" (Sheet.declarationsText s 2 ds))).toList ++ after =
      (pre ++ (s.indentation 0).toList ++ head.toList ++ s.space.toList ++ '\x7b' ::
        (s.newline.toList ++ (s.indentation 1).toList ++ ['*'] ++ s.space.toList ++ '\x7b' ::
          (s.newline.toList ++ (Sheet.declarationsText s 2 ds).toList ++
            (s.indentation 1).toList))) ++
        '\x7d' :: ((s.newline.toList ++ (s.indentation 0).toList) ++
          '\x7d' :: (s.newline.toList ++ after)) := by
    simp [blockText_toList]
  have hpiece : '\x7d' ∉ pre ++ (s.indentation 0).toList ++ head.toList ++ s.space.toList ++
      '\x7b' :: (s.newline.toList ++ (s.indentation 1).toList ++ ['*'] ++ s.space.toList ++
        '\x7b' :: (s.newline.toList ++ (Sheet.declarationsText s 2 ds).toList ++
          (s.indentation 1).toList)) := by
    intro hmem
    rcases List.mem_append.mp hmem with hleft | hright
    · exact (hprelude _ hleft).2 rfl
    · rcases List.mem_cons.mp hright with heq | hin
      · exact absurd heq (by decide)
      · rcases List.mem_append.mp hin with hleft | hlast
        · exact (hinner _ hleft).2 rfl
        · rcases List.mem_cons.mp hlast with heq | hin
          · exact absurd heq (by decide)
          · exact (hblock _ hin).2 rfl
  have hclose : '\x7d' ∉ s.newline.toList ++ (s.indentation 0).toList :=
    fun hmem => (Unbraced.of_blank hnext _ hmem).2 rfl
  rw [htext, List.splitOn_append_cons_self_of_not_mem hpiece,
    List.splitOn_append_cons_self_of_not_mem hclose]
  refine rules?_group (fun hmem => (hprelude _ hmem).1 rfl) (fun hmem => (hinner _ hmem).1 rfl)
    (fun hmem => (hblock _ hmem).1 rfl) ?_ hnext
    (rule?_declarationsText hs hgap (hs.indentation 1) 2 h) hrs
  rw [trim_append_blank _ hs.space, trim_blank_append hlead]
  decide

include hs in
theorem rules?_rulesText {rules : List Rule} (hscope : ∀ r ∈ rules, r.scope.Readable)
    (hbody : ∀ r ∈ rules, ∀ d ∈ r.body, d.Named) {pre : List Char} (hpre : Text.Blank pre) :
    rules? ((pre ++ (String.join (rules.map (Sheet.ruleText s))).toList).splitOn '\x7d') =
      some (rules.map (Rule.entry s)) := by
  induction rules generalizing pre with
  | nil =>
    have hsplit : pre.splitOn '\x7d' = [pre] :=
      List.splitOn_eq_singleton fun hmem => (Unbraced.of_blank hpre _ hmem).2 rfl
    simp [hsplit, rules?, hpre]
  | cons r rules ih =>
    have hreadable := hscope r List.mem_cons_self
    have hnamed := hbody r List.mem_cons_self
    have hrest := ih (fun r' hr' => hscope r' (List.mem_cons_of_mem r hr'))
      (fun r' hr' => hbody r' (List.mem_cons_of_mem r hr')) hs.newline
    have htext : pre ++ (String.join ((r :: rules).map (Sheet.ruleText s))).toList =
        pre ++ (Sheet.ruleText s r).toList ++
          (String.join (rules.map (Sheet.ruleText s))).toList := by
      simp
    rw [htext, List.map_cons]
    cases hkind : r.scope with
    | selector source =>
      have hat : (trim r.scope.universal.toList).head? ≠ some '@' := by
        have hplain := hreadable.plain source hkind
        rwa [Scope.prelude, String.toList_ofList] at hplain
      have hrule : Sheet.ruleText s r =
          Sheet.blockText s 0 r.scope.universal (Sheet.declarationsText s 1 r.body) := by
        simp only [Sheet.ruleText, hkind]
      rw [hrule]
      exact rules?_blockText hs hpre hreadable.unbraced hat hnamed hrest
    | atRule source =>
      have hrule : Sheet.ruleText s r =
          Sheet.blockText s 0 r.scope.universal
            (Sheet.blockText s 1 "*" (Sheet.declarationsText s 2 r.body)) := by
        simp only [Sheet.ruleText, hkind]
      rw [hrule]
      exact rules?_groupText hs hpre hreadable.unbraced hnamed hrest

include hs in
/-- A printed sheet is read back, rule by rule and declaration by declaration. -/
theorem read?_text {sheet : Sheet} (hroot : ∀ d ∈ sheet.root, d.Named)
    (hscope : ∀ r ∈ sheet.rules, r.scope.Readable)
    (hbody : ∀ r ∈ sheet.rules, ∀ d ∈ r.body, d.Named) :
    read? (sheet.text s) =
      some ⟨sheet.root.map (Declaration.entry s), sheet.rules.map (Rule.entry s)⟩ := by
  have hrules := rules?_rulesText hs hscope hbody hs.newline
  have hstar : Unbraced "*".toList := by decide
  have hall := rules?_blockText hs blank_nil hstar (by decide) hroot hrules
  have htext : (sheet.text s).toList =
      [] ++ (Sheet.blockText s 0 "*" (Sheet.declarationsText s 1 sheet.root)).toList ++
        (String.join (sheet.rules.map (Sheet.ruleText s))).toList := by
    simp [Sheet.text]
  rw [read?, htext, hall]
  rfl

end Reading

end ConditionalStyles
