import ConditionalStyles.Configuration.Reader
import ConditionalStyles.Proofs.Condition.Encoding
import ConditionalStyles.Proofs.Json.SpelledValues
import ConditionalStyles.Proofs.OrderedMap
import ConditionalStyles.Registry

/-!
Loading a configuration gives what its declarations and options build. The text may list the fields
in any order, leave out those that have their default, hold unknown fields and spell every value in
any way. A field that is met is kept in a draft, so the loop over the fields is followed by what the
fields that are still to come do to each entry of the draft.
-/
namespace ConditionalStyles

namespace Json.Spelling

variable {s : Spelling}

theorem eq_bool_of_value? {b : Bool} (h : s.value? = some (.bool b)) : s = .bool b := by
  cases s with
  | bool c => simpa [value?] using h
  | _ => simp [value?] at h

theorem exists_literal_of_value? {text : String} (h : s.value? = some (.string text)) :
    ∃ l, s = .string l ∧ l.string? = some text := by
  cases s with
  | string l => exact ⟨l, rfl, by simpa [value?] using h⟩
  | _ => simp [value?] at h

theorem exists_fields_of_value? {vs : List (String × Value)} (h : s.value? = some (.object vs)) :
    ∃ fields inside, s = .object fields inside ∧ fieldValues? fields = some vs := by
  cases s with
  | object fields inside => exact ⟨fields, inside, rfl, by simpa [value?] using h⟩
  | _ => simp [value?] at h

theorem exists_fields_of_fields? {fs : List (String × Spelling)} (h : s.fields? = some fs) :
    ∃ fields inside, s = .object fields inside ∧ named? fields = some fs := by
  cases s with
  | object fields inside => exact ⟨fields, inside, rfl, h⟩
  | _ => cases h

end Json.Spelling

namespace Configuration

open Json (Reader Spelling Blanks Padded Literal)
open Json.Reader

section Entries

variable {α : Type} {fs : List (String × Spelling)} {name : String}
  {Spells : Spelling → α → Prop}

/-- One field of the name spells the value, or there is none and the value is the default. -/
def Gives (fs : List (String × Spelling)) (name : String) (Spells : Spelling → α → Prop)
    (standard a : α) : Prop :=
  match fs.filter fun field => field.1 == name with
  | [] => a = standard
  | [field] => Spells field.2 a
  | _ => False

/-- What the fields of the name make of an entry that may have been met before. -/
def Leads (fs : List (String × Spelling)) (name : String) (Spells : Spelling → α → Prop)
    (before after : Option α) : Prop :=
  match fs.filter fun field => field.1 == name with
  | [] => after = before
  | [field] => before = none ∧ ∃ a, after = some a ∧ Spells field.2 a
  | _ => False

theorem Gives.exists_leads {standard a : α} (h : Gives fs name Spells standard a) :
    ∃ after, Leads fs name Spells none after ∧ after.getD standard = a := by
  rw [Gives] at h
  split at h
  · next hfilter => exact ⟨none, by rw [Leads, hfilter], h.symm⟩
  · next field hfilter => exact ⟨some a, by rw [Leads, hfilter]; exact ⟨rfl, a, rfl, h⟩, rfl⟩
  · exact h.elim

/-- What a field spells may be read as something else. -/
theorem Gives.map {β : Type} {SpellsImage : Spelling → β → Prop} {standard a : α} (f : α → β)
    (h : Gives fs name Spells standard a) (himage : ∀ s, Spells s a → SpellsImage s (f a)) :
    Gives fs name SpellsImage (f standard) (f a) := by
  rw [Gives] at h ⊢
  split at h
  · rw [h]
  · exact himage _ h
  · exact h.elim

variable {before after : Option α}

theorem Leads.eq_of_nil (h : Leads [] name Spells before after) : after = before := h

theorem Leads.of_cons_self {s : Spelling} (h : Leads ((name, s) :: fs) name Spells before after) :
    before = none ∧ ∃ a, Spells s a ∧ Leads fs name Spells (some a) after := by
  rw [Leads, List.filter_cons_of_pos (by simp)] at h
  cases hfilter : fs.filter fun field => field.1 == name with
  | nil =>
    rw [hfilter] at h
    obtain ⟨hnone, a, rfl, hs⟩ := h
    exact ⟨hnone, a, hs, by rw [Leads, hfilter]⟩
  | cons field rest =>
    rw [hfilter] at h
    exact h.elim

theorem Leads.of_cons_ne {key : String} {s : Spelling}
    (h : Leads ((key, s) :: fs) name Spells before after) (hne : key ≠ name) :
    Leads fs name Spells before after := by
  rwa [Leads, List.filter_cons_of_neg (by simpa using hne)] at h

end Entries

def SpellsBoolean (s : Spelling) (b : Bool) : Prop := s.value? = some (.bool b)

def SpellsFallback (s : Spelling) (fallback : Fallback) : Prop :=
  s.value? = some (.string fallback.keyword)

/-- The declarations stand in an object as they follow each other, with repeated names. -/
def SpellsHooks (s : Spelling) (declarations : List (String × Condition Scope)) : Prop :=
  s.value? = some (.object (declarations.map fun d => (d.1, d.2.toJson Scope.toJson)))

def SpellsOrder (s : Spelling) (order : StyleOrder) : Prop :=
  let standard : StyleOrder := {}
  ∃ fs, s.fields? = some fs ∧
    Gives fs "properties" SpellsBoolean standard.latestLast order.latestLast ∧
    Gives fs "conditionalStyles" SpellsBoolean standard.overridesLast order.overridesLast

/-- The fields of the document give the declarations and the options. -/
def Describes (s : Spelling) (declarations : List (String × Condition Scope)) (fallback : Fallback)
    (readable : Bool) (order : StyleOrder) : Prop :=
  let standard : Configuration := {}
  ∃ fs, s.fields? = some fs ∧
    Gives fs "hooks" SpellsHooks [] declarations ∧
    Gives fs "fallback" SpellsFallback standard.fallback fallback ∧
    Gives fs "debug" SpellsBoolean standard.readable readable ∧
    Gives fs "sort" SpellsOrder standard.order order

section Scalars

theorem takes_booleanReader {s : Spelling} {b : Bool} (h : SpellsBoolean s b) :
    Takes booleanReader s.text b := by
  intro rest _
  obtain rfl := Spelling.eq_bool_of_value? h
  cases b with
  | false =>
    change booleanReader ('f' :: 'a' :: 'l' :: 's' :: 'e' :: rest) = _
    rfl
  | true =>
    change booleanReader ('t' :: 'r' :: 'u' :: 'e' :: rest) = _
    rfl

theorem passesBlanks_booleanReader : PassesBlanks booleanReader :=
  fun b s => bind_peek?_blanks b s _

theorem ofKeyword?_keyword (fallback : Fallback) :
    Fallback.ofKeyword? fallback.keyword = some fallback := by
  cases fallback <;> rfl

theorem takes_fallbackReader {s : Spelling} {fallback : Fallback} (h : SpellsFallback s fallback) :
    Takes fallbackReader s.text fallback := by
  intro rest _
  obtain ⟨l, rfl, hl⟩ := Spelling.exists_literal_of_value? h
  have hquote : isBlank '"' = false := rfl
  have hkeyword (s : List Char) : fallbackReader ('"' :: s) = keywordReader ('"' :: s) := rfl
  have hname := fieldName_text hl rest
  rw [Literal.text, List.cons_append] at hname
  rw [Spelling.text_string, Literal.text, List.cons_append, hkeyword, keywordReader,
    bind_ok (peek?_cons hquote _)]
  refine (bind_ok hname).trans ?_
  rw [ofKeyword?_keyword]
  rfl

theorem passesBlanks_fallbackReader : PassesBlanks fallbackReader :=
  fun b s => bind_peek?_blanks b s _

end Scalars

section Fields

variable {α σ : Type} {body : String → Reader σ} {name : Padded Literal} {key : String}
  {before after : Blanks} {value : Spelling}

/-- The value of a field that is met for the first time is kept. -/
theorem takes_known {reader : Reader α} {a : α} (keep : α → σ)
    (hname : name.body.string? = some key)
    (hbody : body key = once key none reader >>= fun a => pure (keep a))
    (hpasses : PassesBlanks reader) (h : Takes reader value.text a) :
    Takes (fieldName >>= body) (Spelling.fieldPart name before value.text after).body (keep a) := by
  intro rest hrest
  rw [bind_ok (fieldName_fieldPart hname rest), hbody, once, Option.isSome_none,
    if_neg (by decide), bind_assoc, bind_ok (colon_blanks _ _),
    bind_ok (h.blanks hpasses before rest hrest)]
  rfl

/-- The value of an unknown field does not matter. -/
theorem takes_unknown {state : σ} (hname : name.body.string? = some key)
    (hbody : body key = unknownField >>= fun _ => pure state) :
    Takes (fieldName >>= body) (Spelling.fieldPart name before value.text after).body state := by
  intro rest hrest
  rw [bind_ok (fieldName_fieldPart hname rest), hbody, unknownField, bind_assoc,
    bind_ok (colon_blanks _ _), bind_ok (takes_skip value before rest hrest)]
  rfl

end Fields

namespace OrderDraft

section Field

variable {draft : OrderDraft} {name : Padded Literal} {before after : Blanks} {value : Spelling}

theorem takes_latestLast {b : Bool} (hname : name.body.string? = some "properties")
    (hnone : draft.latestLast = none) (h : SpellsBoolean value b) :
    Takes draft.field (Spelling.fieldPart name before value.text after).body
      { draft with latestLast := some b } := by
  refine takes_known (fun b => { draft with latestLast := some b }) hname ?_
    passesBlanks_booleanReader (takes_booleanReader h)
  rw [if_pos rfl, hnone]

theorem takes_overridesLast {b : Bool} (hname : name.body.string? = some "conditionalStyles")
    (hnone : draft.overridesLast = none) (h : SpellsBoolean value b) :
    Takes draft.field (Spelling.fieldPart name before value.text after).body
      { draft with overridesLast := some b } := by
  refine takes_known (fun b => { draft with overridesLast := some b }) hname ?_
    passesBlanks_booleanReader (takes_booleanReader h)
  rw [if_neg (by decide), if_pos rfl, hnone]

end Field

/-- The fields, one after the other, take every entry of the draft to where they lead it. -/
theorem runs_field {fields : List (Padded Literal × Padded Spelling)}
    {fs : List (String × Spelling)} (hfs : Spelling.named? fields = some fs)
    {draft final : OrderDraft}
    (hlatest : Leads fs "properties" SpellsBoolean draft.latestLast final.latestLast)
    (hoverrides : Leads fs "conditionalStyles" SpellsBoolean draft.overridesLast
      final.overridesLast) :
    Runs OrderDraft.field draft (Spelling.fieldParts fields) final true := by
  induction fields generalizing fs draft with
  | nil =>
    cases hfs
    cases draft
    cases final
    cases hlatest.eq_of_nil
    cases hoverrides.eq_of_nil
    exact .nil _
  | cons part fields ih =>
    obtain ⟨name, before, value, after⟩ := part
    rw [Spelling.named?] at hfs
    split at hfs
    · next key fs hname hfs' =>
      cases hfs
      -- the field belongs to one entry of the draft at most; the others wait for later fields
      by_cases hkey : key = "properties"
      · subst hkey
        obtain ⟨hnone, b, hb, hlatest⟩ := hlatest.of_cons_self
        exact .cons fieldPart_quote (takes_latestLast hname hnone hb)
          (ih hfs' hlatest (hoverrides.of_cons_ne (by decide)))
      have hlatest := hlatest.of_cons_ne hkey
      by_cases hkey' : key = "conditionalStyles"
      · subst hkey'
        obtain ⟨hnone, b, hb, hoverrides⟩ := hoverrides.of_cons_self
        exact .cons fieldPart_quote (takes_overridesLast hname hnone hb)
          (ih hfs' hlatest hoverrides)
      refine .cons fieldPart_quote (takes_unknown hname ?_)
        (ih hfs' hlatest (hoverrides.of_cons_ne hkey'))
      rw [if_neg hkey, if_neg hkey']
    · cases hfs

end OrderDraft

theorem takes_orderReader {s : Spelling} {order : StyleOrder} (h : SpellsOrder s order) :
    Takes orderReader s.text order := by
  intro rest hrest
  obtain ⟨fs, hfs, hlatest, hoverrides⟩ := h
  obtain ⟨fields, inside, rfl, hfs⟩ := Spelling.exists_fields_of_fields? hfs
  obtain ⟨latestLast, hlatest, hlatest'⟩ := hlatest.exists_leads
  obtain ⟨overridesLast, hoverrides, hoverrides'⟩ := hoverrides.exists_leads
  have hruns : Runs OrderDraft.field {} (Spelling.fieldParts fields) ⟨latestLast, overridesLast⟩
      true := OrderDraft.runs_field hfs hlatest hoverrides
  have hopen (s : List Char) : orderReader ('\x7b' :: s) =
      (Reader.fields OrderDraft.field {} >>= fun draft => pure draft.order) s := rfl
  rw [Spelling.text_object, Json.enclosed, List.cons_append, hopen,
    bind_ok (reads_fields inside hruns rest hrest)]
  simp only [OrderDraft.order, hlatest', hoverrides']
  rfl

theorem passesBlanks_orderReader : PassesBlanks orderReader :=
  fun b s => bind_peek?_blanks b s _

section Hooks

variable {declarations : List (String × Condition Scope)}

theorem takes_condition {s : Spelling} {c : Condition Scope}
    (hvalue : s.value? = some (c.toJson Scope.toJson)) {depth : Nat} (hdepth : s.nesting ≤ depth)
    (hparsed : ∀ scope ∈ c.atoms, scope.Parsed) :
    Takes (Condition.reader Scope.ofJson? depth) s.text c := by
  intro rest hrest
  have hdecoded : Condition.ofJson? Scope.ofJson? (c.toJson Scope.toJson) = some c :=
    Condition.ofJson?_spelled c (Condition.ofJson?_of_parsed hparsed)
  rw [Condition.reader, bind_ok (takes_value hvalue hdepth rest hrest), hdecoded]
  rfl

theorem passesBlanks_condition (depth : Nat) :
    PassesBlanks (Condition.reader Scope.ofJson? depth) := by
  intro b s
  change (do let r ← value depth (b.chars ++ s); _) = (do let r ← value depth s; _)
  rw [passesBlanks_value]

theorem takes_hookField {name : Padded Literal} {before after : Blanks} {value : Spelling}
    {key : String} {c : Condition Scope} (hname : name.body.string? = some key)
    (hvalue : value.value? = some (c.toJson Scope.toJson))
    (hdepth : value.nesting ≤ Json.depthLimit - 2) (hparsed : ∀ scope ∈ c.atoms, scope.Parsed)
    (hooks : OrderedMap (Condition Scope)) :
    Takes (hookField hooks) (Spelling.fieldPart name before value.text after).body
      (hooks.insert key c) := by
  intro rest hrest
  have htakes := (takes_condition hvalue hdepth hparsed).blanks (passesBlanks_condition _) before
  rw [hookField, bind_ok (fieldName_fieldPart hname rest), bind_ok (colon_blanks _ _),
    bind_ok (htakes rest hrest)]
  rfl

theorem runs_hookField {fields : List (Padded Literal × Padded Spelling)}
    (hvalues : Spelling.fieldValues? fields =
      some (declarations.map fun d => (d.1, d.2.toJson Scope.toJson)))
    (hdepth : Spelling.nestingFields fields ≤ Json.depthLimit - 2)
    (hparsed : ∀ d ∈ declarations, ∀ scope ∈ d.2.atoms, scope.Parsed)
    (hooks : OrderedMap (Condition Scope)) :
    Runs hookField hooks (Spelling.fieldParts fields) (hooks.insertAll declarations) true := by
  induction fields generalizing declarations hooks with
  | nil =>
    obtain rfl : declarations = [] := List.map_eq_nil_iff.mp (Option.some_inj.mp hvalues).symm
    exact .nil hooks
  | cons part fields ih =>
    obtain ⟨name, before, value, after⟩ := part
    rw [Spelling.nestingFields, Nat.max_le] at hdepth
    rw [Spelling.fieldValues?] at hvalues
    split at hvalues
    · next key v vs hname hvalue hvs =>
      obtain ⟨d, declarations, rfl, hd, rfl⟩ :=
        List.map_eq_cons_iff.mp (Option.some_inj.mp hvalues).symm
      cases hd
      rw [List.forall_mem_cons] at hparsed
      exact .cons fieldPart_quote (takes_hookField hname hvalue hdepth.1 hparsed.1 hooks)
        (ih hvs hdepth.2 hparsed.2 (hooks.insert d.1 d.2))
    · cases hvalues

theorem takes_hooksReader {s : Spelling} (h : SpellsHooks s declarations)
    (hdepth : s.nesting ≤ Json.depthLimit - 1)
    (hparsed : ∀ d ∈ declarations, ∀ scope ∈ d.2.atoms, scope.Parsed) :
    Takes hooksReader s.text (.ofList declarations) := by
  intro rest hrest
  obtain ⟨fields, inside, rfl, hvalues⟩ := Spelling.exists_fields_of_value? h
  rw [Spelling.nesting] at hdepth
  have hruns := runs_hookField hvalues (by omega) hparsed ∅
  have hopen (s : List Char) : hooksReader ('\x7b' :: s) = Reader.fields hookField ∅ s := rfl
  rw [Spelling.text_object, Json.enclosed, List.cons_append, hopen,
    reads_fields inside hruns rest hrest]
  rfl

theorem passesBlanks_hooksReader : PassesBlanks hooksReader :=
  fun b s => bind_peek?_blanks b s _

end Hooks

namespace Draft

/-- The hooks of declarations over parsed scopes. -/
def SpellsMap (s : Spelling) (hooks : OrderedMap (Condition Scope)) : Prop :=
  ∃ declarations, SpellsHooks s declarations ∧
    (∀ d ∈ declarations, ∀ scope ∈ d.2.atoms, scope.Parsed) ∧ hooks = .ofList declarations

section Field

variable {draft : Draft} {name : Padded Literal} {before after : Blanks} {value : Spelling}

theorem takes_hooks {hooks : OrderedMap (Condition Scope)}
    (hname : name.body.string? = some "hooks") (hnone : draft.hooks = none)
    (h : SpellsMap value hooks) (hdepth : value.nesting ≤ Json.depthLimit - 1) :
    Takes draft.field (Spelling.fieldPart name before value.text after).body
      { draft with hooks := some hooks } := by
  obtain ⟨declarations, hspells, hparsed, rfl⟩ := h
  refine takes_known (fun hooks => { draft with hooks := some hooks }) hname ?_
    passesBlanks_hooksReader (takes_hooksReader hspells hdepth hparsed)
  rw [if_pos rfl, hnone]

theorem takes_fallback {fallback : Fallback} (hname : name.body.string? = some "fallback")
    (hnone : draft.fallback = none) (h : SpellsFallback value fallback) :
    Takes draft.field (Spelling.fieldPart name before value.text after).body
      { draft with fallback := some fallback } := by
  refine takes_known (fun fallback => { draft with fallback := some fallback }) hname ?_
    passesBlanks_fallbackReader (takes_fallbackReader h)
  rw [if_neg (by decide), if_pos rfl, hnone]

theorem takes_readable {b : Bool} (hname : name.body.string? = some "debug")
    (hnone : draft.readable = none) (h : SpellsBoolean value b) :
    Takes draft.field (Spelling.fieldPart name before value.text after).body
      { draft with readable := some b } := by
  refine takes_known (fun b => { draft with readable := some b }) hname ?_
    passesBlanks_booleanReader (takes_booleanReader h)
  rw [if_neg (by decide), if_neg (by decide), if_pos rfl, hnone]

theorem takes_order {order : StyleOrder} (hname : name.body.string? = some "sort")
    (hnone : draft.order = none) (h : SpellsOrder value order) :
    Takes draft.field (Spelling.fieldPart name before value.text after).body
      { draft with order := some order } := by
  refine takes_known (fun order => { draft with order := some order }) hname ?_
    passesBlanks_orderReader (takes_orderReader h)
  rw [if_neg (by decide), if_neg (by decide), if_neg (by decide), if_pos rfl, hnone]

end Field

/-- Of the fields that follow, each entry of the draft waits for those of its name. -/
theorem runs_field {fields : List (Padded Literal × Padded Spelling)}
    {fs : List (String × Spelling)} (hfs : Spelling.named? fields = some fs)
    (hdepth : Spelling.nestingFields fields ≤ Json.depthLimit - 1) {draft final : Draft}
    (hhooks : Leads fs "hooks" SpellsMap draft.hooks final.hooks)
    (hfallback : Leads fs "fallback" SpellsFallback draft.fallback final.fallback)
    (hreadable : Leads fs "debug" SpellsBoolean draft.readable final.readable)
    (horder : Leads fs "sort" SpellsOrder draft.order final.order) :
    Runs Draft.field draft (Spelling.fieldParts fields) final true := by
  induction fields generalizing fs draft with
  | nil =>
    cases hfs
    cases draft
    cases final
    cases hhooks.eq_of_nil
    cases hfallback.eq_of_nil
    cases hreadable.eq_of_nil
    cases horder.eq_of_nil
    exact .nil _
  | cons part fields ih =>
    obtain ⟨name, before, value, after⟩ := part
    rw [Spelling.nestingFields, Nat.max_le] at hdepth
    rw [Spelling.named?] at hfs
    split at hfs
    · next key fs hname hfs' =>
      cases hfs
      have ih {next : Draft} := @ih fs hfs' hdepth.2 next
      by_cases hkeyHooks : key = "hooks"
      · subst hkeyHooks
        obtain ⟨hnone, hooks, hspells, hhooks⟩ := hhooks.of_cons_self
        exact .cons fieldPart_quote (takes_hooks hname hnone hspells hdepth.1)
          (ih hhooks (hfallback.of_cons_ne (by decide)) (hreadable.of_cons_ne (by decide))
            (horder.of_cons_ne (by decide)))
      replace hhooks := hhooks.of_cons_ne hkeyHooks
      by_cases hkeyFallback : key = "fallback"
      · subst hkeyFallback
        obtain ⟨hnone, fallback, hspells, hfallback⟩ := hfallback.of_cons_self
        exact .cons fieldPart_quote (takes_fallback hname hnone hspells)
          (ih hhooks hfallback (hreadable.of_cons_ne (by decide)) (horder.of_cons_ne (by decide)))
      replace hfallback := hfallback.of_cons_ne hkeyFallback
      by_cases hkeyReadable : key = "debug"
      · subst hkeyReadable
        obtain ⟨hnone, readable, hspells, hreadable⟩ := hreadable.of_cons_self
        exact .cons fieldPart_quote (takes_readable hname hnone hspells)
          (ih hhooks hfallback hreadable (horder.of_cons_ne (by decide)))
      replace hreadable := hreadable.of_cons_ne hkeyReadable
      by_cases hkeyOrder : key = "sort"
      · subst hkeyOrder
        obtain ⟨hnone, order, hspells, horder⟩ := horder.of_cons_self
        exact .cons fieldPart_quote (takes_order hname hnone hspells)
          (ih hhooks hfallback hreadable horder)
      refine .cons fieldPart_quote (takes_unknown hname ?_)
        (ih hhooks hfallback hreadable (horder.of_cons_ne hkeyOrder))
      rw [if_neg hkeyHooks, if_neg hkeyFallback, if_neg hkeyReadable, if_neg hkeyOrder]
    · cases hfs

end Draft

/-- The configuration that declares the hooks one after the other and then sets the options. -/
def build (declarations : List (String × Condition Scope)) (fallback : Fallback) (readable : Bool)
    (order : StyleOrder) : Configuration :=
  let declared : Configuration := declarations.foldl (fun config d => config.hook d.1 d.2) {}
  { declared with fallback, readable, order }

section Building

variable {declarations : List (String × Condition Scope)} {fallback : Fallback} {readable : Bool}
  {order : StyleOrder}

theorem foldl_hook (declarations : List (String × Condition Scope)) (config : Configuration) :
    declarations.foldl (fun config d => config.hook d.1 d.2) config =
      { config with hooks := config.hooks.insertAll declarations } := by
  induction declarations generalizing config with
  | nil => rfl
  | cons d declarations ih => exact ih (config.hook d.1 d.2)

theorem build_eq : build declarations fallback readable order =
    { hooks := .ofList declarations, fallback, readable, order } := by
  rw [build, foldl_hook]
  rfl

theorem takes_reader {s : Spelling} (h : Describes s declarations fallback readable order)
    (hparsed : ∀ d ∈ declarations, ∀ scope ∈ d.2.atoms, scope.Parsed)
    (hdepth : s.nesting ≤ Json.depthLimit) :
    Takes reader s.text (build declarations fallback readable order) := by
  intro rest hrest
  obtain ⟨fs, hfs, hhooks, hfallback, hreadable, horder⟩ := h
  obtain ⟨fields, inside, rfl, hfs⟩ := Spelling.exists_fields_of_fields? hfs
  replace hhooks : Gives fs "hooks" Draft.SpellsMap (.ofList []) (.ofList declarations) :=
    hhooks.map OrderedMap.ofList fun s hs => ⟨declarations, hs, hparsed, rfl⟩
  obtain ⟨draftHooks, hhooks, hhooks'⟩ := hhooks.exists_leads
  obtain ⟨draftFallback, hfallback, hfallback'⟩ := hfallback.exists_leads
  obtain ⟨draftReadable, hreadable, hreadable'⟩ := hreadable.exists_leads
  obtain ⟨draftOrder, horder, horder'⟩ := horder.exists_leads
  rw [Spelling.nesting] at hdepth
  have hruns : Runs Draft.field {} (Spelling.fieldParts fields)
      ⟨draftHooks, draftFallback, draftReadable, draftOrder⟩ true :=
    Draft.runs_field hfs (by omega) hhooks hfallback hreadable horder
  have hopen (s : List Char) : reader ('\x7b' :: s) =
      (Reader.fields Draft.field {} >>= fun draft => pure draft.config) s := rfl
  rw [Spelling.text_object, Json.enclosed, List.cons_append, hopen,
    bind_ok (reads_fields inside hruns rest hrest), build_eq, ← hhooks', ← hfallback',
    ← hreadable', ← horder']
  rfl

theorem passesBlanks_reader : PassesBlanks reader := fun b s => bind_peek?_blanks b s _

/-- The text of a document with blanks around it. -/
def documentText (document : Padded Spelling) : String :=
  String.ofList (document.before.chars ++ document.body.text ++ document.after.chars)

theorem load_documentText {document : Padded Spelling}
    (h : Describes document.body declarations fallback readable order)
    (hparsed : ∀ d ∈ declarations, ∀ scope ∈ d.2.atoms, scope.Parsed)
    (hdepth : document.body.nesting ≤ Json.depthLimit) :
    load (documentText document) = .ok (build declarations fallback readable order) := by
  have hends : Ends document.after.chars := by
    simpa using Ends.nil.blanks document.after
  have hread := (takes_reader h hparsed hdepth).blanks passesBlanks_reader document.before
    document.after.chars hends
  have hblank : document.after.chars.dropWhile isBlank = [] := by
    simpa using dropWhile_blanks document.after []
  rw [load, Reader.run, documentText, String.toList_ofList, hread, if_pos rfl]
  simp only [bind, Except.bind, hblank]
  rfl

end Building

/-- Loading a document that gives declarations and options, in any order of its fields, with or
without those that have their default and with unknown ones, succeeds and equals building. -/
theorem loading_equals_building (declarations : List (String × Condition Scope))
    (fallback : Fallback) (readable : Bool) (order : StyleOrder) (document : Padded Spelling)
    (hdescribes : Describes document.body declarations fallback readable order)
    (hparsed : ∀ d ∈ declarations, ∀ scope ∈ d.2.atoms, scope.Parsed)
    (hnesting : document.body.nesting ≤ 127) :
    let built := build declarations fallback readable order
    load (documentText document) = .ok built ∧
    built.hooks.names = (declarations.map Prod.fst).eraseDups ∧
    (∀ name, built.hooks.get? name = declarations.reverse.lookup name) ∧
    built.fallback = fallback ∧ built.readable = readable ∧ built.order = order ∧
    built.naming = none ∧
    ∀ config valueText, load (documentText document) = .ok config →
      (Registry.create config valueText).names = (Registry.create built valueText).names ∧
      (Registry.create config valueText).styleSheet.1 =
        (Registry.create built valueText).styleSheet.1 := by
  have hload := load_documentText hdescribes hparsed hnesting
  have hhooks : (build declarations fallback readable order).hooks = .ofList declarations := by
    rw [build_eq]
  refine ⟨hload, ?_, ?_, rfl, rfl, rfl, ?_, ?_⟩
  · rw [hhooks, OrderedMap.names_ofList]
  · intro name
    rw [hhooks, OrderedMap.get?_ofList_eq_lookup]
  · rw [build_eq]
  · intro config valueText hconfig
    rw [hload] at hconfig
    cases hconfig
    exact ⟨rfl, rfl⟩

section Sample

/-- The character itself, if it needs no escape. -/
def plainPiece? (c : Char) : Option Json.Piece :=
  if h : c ≠ '"' ∧ c ≠ '\\' ∧ ¬ c.toNat < 0x20 then some (.plain c h) else none

/-- A literal without escapes; characters that need one are left out. -/
def plainLiteral (s : String) : Literal := s.toList.filterMap plainPiece?

theorem string?_plainLiteral {s : String}
    (h : s.toList.all (fun c => (plainPiece? c).isSome) = true) :
    (plainLiteral s).string? = some s := by
  have hpiece {c : Char} {piece : Json.Piece} (h : plainPiece? c = some piece) :
      piece.char? = some c := by
    rw [plainPiece?] at h
    split at h
    · cases h
      rfl
    · cases h
  have hchars : Literal.chars? (plainLiteral s) = some s.toList := by
    rw [plainLiteral]
    generalize s.toList = cs at h ⊢
    induction cs with
    | nil => rfl
    | cons c cs ih =>
      rw [List.all_cons, Bool.and_eq_true] at h
      obtain ⟨piece, hc⟩ := Option.isSome_iff_exists.mp h.1
      rw [List.filterMap_cons_some hc, Literal.chars?, hpiece hc, ih h.2]
  rw [Literal.string?, hchars, Option.map_some, String.ofList_toList]

def plainField (name : String) (value : Spelling) : Padded Literal × Padded Spelling :=
  ({ body := plainLiteral name }, { body := value })

/-- Half of a surrogate pair. -/
def halfPair : Json.Piece :=
  .unit ⟨⟨'d', 13, rfl⟩, ⟨'8', 8, rfl⟩, ⟨'0', 0, rfl⟩, ⟨'0', 0, rfl⟩⟩

/-- A number that no double holds. -/
def tooLarge : Json.NumberText where
  numeral := ⟨false, ['1'], [], some (false, ['9', '9', '9'])⟩
  whole := by decide
  leading := by
    intro rest h
    cases h
  fraction := rfl
  exponent := by
    intro minus digits h
    cases h
    decide

def sampleDeclarations : List (String × Condition Scope) :=
  [("dark", .atom (.atRule "@media print")), ("hover", .atom (.selector "&:hover")),
    ("dark", .not (.atom (.selector "&:hover")))]

def sampleHooks : Spelling :=
  .object
    [plainField "dark" (.string (plainLiteral "@media print")),
      plainField "hover" (.string (plainLiteral "&:hover")),
      plainField "dark" (.object [plainField "not" (.string (plainLiteral "&:hover"))] {})] {}

def sampleOrder : Spelling :=
  .object [plainField "extra" .null, plainField "conditionalStyles" (.bool true)] {}

/-- Unknown fields stand between known ones, and what they hold may have no value. -/
def sampleDocument : Padded Spelling where
  before := ⟨['\n'], rfl⟩
  body :=
    .object
      [plainField "debug" (.bool true),
        plainField "later" (.array [{ body := .number tooLarge, after := ⟨[' '], rfl⟩ },
          { before := ⟨[' '], rfl⟩, body := .string [halfPair] }] {}),
        plainField "hooks" sampleHooks,
        plainField "sort" sampleOrder]
      ⟨['\n'], rfl⟩

theorem describes_sample : Describes sampleDocument.body sampleDeclarations .unset true
    { overridesLast := true } := by
  have hplain : (["debug", "later", "hooks", "sort", "extra", "conditionalStyles", "dark", "hover",
      "not", "@media print", "&:hover"].all fun s =>
        s.toList.all fun c => (plainPiece? c).isSome) = true := by
    decide +kernel
  have hnames := fun s hs => string?_plainLiteral (List.all_eq_true.mp hplain s hs)
  simp only [List.forall_mem_cons] at hnames
  simp [Describes, Gives, SpellsBoolean, SpellsFallback, SpellsHooks, SpellsOrder, sampleDocument,
    sampleHooks, sampleOrder, sampleDeclarations, plainField, hnames, Spelling.fields?,
    Spelling.named?, Spelling.value?, Spelling.fieldValues?, Condition.toJson, Scope.toJson,
    Scope.source]

theorem parsed_sample : ∀ d ∈ sampleDeclarations, ∀ scope ∈ d.2.atoms, scope.Parsed := by
  have hmedia : (Scope.atRule "@media print").Parsed := ⟨"@media print", by decide +kernel⟩
  have hhover : (Scope.selector "&:hover").Parsed := ⟨"&:hover", by decide +kernel⟩
  simp [sampleDeclarations, Condition.atoms, hmedia, hhover]

theorem loading_equals_building_with_unknown_fields :
    documentText sampleDocument =
      "\n\x7b\"debug\":true,\"later\":[1e999 , \"\\ud800\"]," ++
        "\"hooks\":\x7b\"dark\":\"@media print\",\"hover\":\"&:hover\"," ++
        "\"dark\":\x7b\"not\":\"&:hover\"\x7d\x7d," ++
        "\"sort\":\x7b\"extra\":null,\"conditionalStyles\":true\x7d\n\x7d" ∧
    load (documentText sampleDocument) =
      .ok (build sampleDeclarations .unset true { overridesLast := true }) ∧
    (build sampleDeclarations .unset true { overridesLast := true }).hooks.names =
      ["dark", "hover"] := by
  have hnesting : sampleDocument.body.nesting ≤ 127 := by decide
  have hloading := loading_equals_building sampleDeclarations .unset true { overridesLast := true }
    sampleDocument describes_sample parsed_sample hnesting
  exact ⟨by decide +kernel, hloading.1, hloading.2.1.trans (by decide +kernel)⟩

end Sample

end Configuration

end ConditionalStyles
