import ConditionalStyles.Configuration.Basic

/-!
Configurations from JSON texts. A configuration and its order of styles are objects, or arrays that
list their fields in order; what is missing takes its default. Unknown fields of objects are passed
over, and a known field may occur once. The first fault in the text is the one that is reported.
Loading a text or a file, and declaring a hook from the source of a scope, either gives a whole
configuration or says what is wrong.
-/
namespace ConditionalStyles.Configuration

open Json (Reader)
open Json.Reader

/-- An element of an array, or its default when the array has ended. -/
def element {α : Type} (first : Bool) (reader : Reader α) (default : α) : Reader α := do
  if ← anotherItem first then reader else return default

/-- The value of a field that must not have been met before. -/
def once {α : Type} (name : String) (earlier : Option α) (reader : Reader α) : Reader α := do
  if earlier.isSome then fail (.mismatch (.repeatedField name))
  else
    colon
    reader

def unknownField : Reader Unit := do
  colon
  skip

def booleanReader : Reader Bool := do
  match ← peek? with
  | none => fail .truncated
  | some 't' =>
    word "true".toList
    return true
  | some 'f' =>
    word "false".toList
    return false
  | some _ => wrongType .boolean

def unitReader : Reader Unit := do
  match ← peek? with
  | none => fail .truncated
  | some 'n' => word "null".toList
  | some _ => wrongType .unit

/-- A keyword in quotes; nothing else may stand in its place. -/
def keywordReader : Reader Fallback := do
  match ← peek? with
  | none => fail .truncated
  | some '"' =>
    let keyword ← fieldName
    match Fallback.ofKeyword? keyword with
    | some fallback => return fallback
    | none => fail (.mismatch (.unknownFallback keyword))
  | some _ => fail .malformed

/-- A keyword, or an object with the keyword as its only field and nothing in it. -/
def fallbackReader : Reader Fallback := do
  match ← peek? with
  | some '\x7b' =>
    advance
    let fallback ← keywordReader
    colon
    unitReader
    closeObject
    return fallback
  | _ => keywordReader

/-- The fields of an order met so far. -/
structure OrderDraft where
  latestLast : Option Bool := none
  overridesLast : Option Bool := none

namespace OrderDraft

def field (draft : OrderDraft) : Reader OrderDraft := do
  let name ← fieldName
  if name = "properties" then
    let b ← once name draft.latestLast booleanReader
    return { draft with latestLast := some b }
  else if name = "conditionalStyles" then
    let b ← once name draft.overridesLast booleanReader
    return { draft with overridesLast := some b }
  else
    unknownField
    return draft

def order (draft : OrderDraft) : StyleOrder :=
  let standard : StyleOrder := {}
  { latestLast := draft.latestLast.getD standard.latestLast
    overridesLast := draft.overridesLast.getD standard.overridesLast }

end OrderDraft

def orderReader : Reader StyleOrder := do
  let standard : StyleOrder := {}
  match ← peek? with
  | none => fail .truncated
  | some '[' =>
    advance
    let latestLast ← element true booleanReader standard.latestLast
    let overridesLast ← element false booleanReader standard.overridesLast
    closeArray
    return { latestLast, overridesLast }
  | some '\x7b' =>
    advance
    let draft ← fields OrderDraft.field {}
    return draft.order
  | some _ => wrongType .styleOrder

/-- A definition stands inside the configuration and its hooks. -/
def hookField (hooks : OrderedMap (Condition Scope)) : Reader (OrderedMap (Condition Scope)) := do
  let name ← fieldName
  colon
  let definition ← Condition.reader Scope.ofJson? (Json.depthLimit - 2)
  return hooks.insert name definition

def hooksReader : Reader (OrderedMap (Condition Scope)) := do
  match ← peek? with
  | none => fail .truncated
  | some '\x7b' =>
    advance
    fields hookField ∅
  | some _ => wrongType .map

/-- The fields met so far. -/
structure Draft where
  hooks : Option (OrderedMap (Condition Scope)) := none
  fallback : Option Fallback := none
  readable : Option Bool := none
  order : Option StyleOrder := none

namespace Draft

def field (draft : Draft) : Reader Draft := do
  let name ← fieldName
  if name = "hooks" then
    let hooks ← once name draft.hooks hooksReader
    return { draft with hooks := some hooks }
  else if name = "fallback" then
    let fallback ← once name draft.fallback fallbackReader
    return { draft with fallback := some fallback }
  else if name = "debug" then
    let readable ← once name draft.readable booleanReader
    return { draft with readable := some readable }
  else if name = "sort" then
    let order ← once name draft.order orderReader
    return { draft with order := some order }
  else
    unknownField
    return draft

def config (draft : Draft) : Configuration :=
  let standard : Configuration := {}
  { hooks := draft.hooks.getD standard.hooks
    fallback := draft.fallback.getD standard.fallback
    readable := draft.readable.getD standard.readable
    order := draft.order.getD standard.order }

end Draft

def reader : Reader Configuration := do
  let standard : Configuration := {}
  match ← peek? with
  | none => fail .truncated
  | some '[' =>
    advance
    let hooks ← element true hooksReader standard.hooks
    let fallback ← element false fallbackReader standard.fallback
    let readable ← element false booleanReader standard.readable
    let order ← element false orderReader standard.order
    closeArray
    return { hooks, fallback, readable, order }
  | some '\x7b' =>
    advance
    let draft ← fields Draft.field {}
    return draft.config
  | some _ => wrongType .configuration

def load (text : String) : Except Error Configuration := (reader.run text).mapError .configuration

/-- The contents of a file, if it is there. -/
def loadFile (contents : Option ByteArray) : Except Error Configuration :=
  match contents.bind String.fromUTF8? with
  | some text => load text
  | none => .error .unreadable

def scopeHook (config : Configuration) (name source : String) : Except Error Configuration :=
  match Scope.ofString? source with
  | some scope => .ok (config.hook name (.atom scope))
  | none => .error (.invalidScope source)

end ConditionalStyles.Configuration
