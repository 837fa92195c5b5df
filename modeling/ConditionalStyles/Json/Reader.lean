import ConditionalStyles.Fault

/-!
Readers of JSON texts. A reader takes what it wants from the front of the remaining characters, or
reports the first fault that it meets. Lists of items and fields are read by loops that pass a
comma or a bracket in every round, so the number of remaining characters bounds the rounds.
-/
namespace ConditionalStyles.Json

abbrev Reader := StateT (List Char) (Except Fault)

namespace Reader

variable {α β σ : Type}

theorem bind_ok {p : Reader α} {f : α → Reader β} {s r : List Char} {a : α}
    (h : p s = .ok (a, r)) : (p >>= f) s = f a r := by
  simp [bind, StateT.bind, Except.bind, h]

theorem bind_error {p : Reader α} {f : α → Reader β} {s : List Char} {fault : Fault}
    (h : p s = .error fault) : (p >>= f) s = .error fault := by
  simp [bind, StateT.bind, Except.bind, h]

theorem pure_ok (a : α) (s : List Char) : (pure a : Reader α) s = .ok (a, s) := rfl

def fail (fault : Fault) : Reader α := fun _ => .error fault

def isBlank (c : Char) : Bool := c = ' ' || c = '\n' || c = '\t' || c = '\r'

/-- Passes blanks and shows the character after them. -/
def peek? : Reader (Option Char) := fun s =>
  .ok ((s.dropWhile isBlank).head?, s.dropWhile isBlank)

def advance : Reader Unit := fun s => .ok ((), s.tail)

def take : Reader Char
  | [] => .error .truncated
  | c :: rest => .ok (c, rest)

def expect (c : Char) : Reader Unit
  | [] => .error .truncated
  | d :: rest => if d = c then .ok ((), rest) else .error .malformed

def word : List Char → Reader Unit
  | [] => pure ()
  | c :: cs => do
    expect c
    word cs

def colon : Reader Unit := do
  match ← peek? with
  | some ':' => advance
  | some _ => fail .malformed
  | none => fail .truncated

/-- Whether another item of an array follows. -/
def anotherItem (first : Bool) : Reader Bool := do
  match ← peek? with
  | none => fail .truncated
  | some ']' => return false
  | some c =>
    if first then return true
    else if c = ',' then
      advance
      match ← peek? with
      | some ']' => fail .malformed
      | some _ => return true
      | none => fail .truncated
    else fail .malformed

def closeArray : Reader Unit := do
  match ← peek? with
  | some ']' => advance
  | some _ => fail .malformed
  | none => fail .truncated

/-- Whether another field of an object follows; a field starts with a quote. -/
def anotherField (first : Bool) : Reader Bool := do
  match ← peek? with
  | none => fail .truncated
  | some '\x7d' => return false
  | some c =>
    if first then
      if c = '"' then return true else fail .malformed
    else if c = ',' then
      advance
      match ← peek? with
      | some '"' => return true
      | some _ => fail .malformed
      | none => fail .truncated
    else fail .malformed

def closeObject : Reader Unit := do
  match ← peek? with
  | some '\x7d' => advance
  | some _ => fail .malformed
  | none => fail .truncated

def itemsFrom (item : Reader α) : Nat → Bool → Reader (List α)
  | 0, _ => fail .truncated
  | rounds + 1, first => do
    if ← anotherItem first then
      let a ← item
      let rest ← itemsFrom item rounds false
      return a :: rest
    else return []

/-- The items of an array after its opening bracket. -/
def items (item : Reader α) : Reader (List α) := do
  let found ← itemsFrom item ((← get).length + 1) true
  closeArray
  return found

/-- Reads fields one after the other; `field` reads a name's opening quote and all after it. -/
def fieldsFrom (field : σ → Reader σ) : Nat → Bool → σ → Reader σ
  | 0, _, _ => fail .truncated
  | rounds + 1, first, state => do
    if ← anotherField first then
      fieldsFrom field rounds false (← field state)
    else return state

/-- The fields of an object after its opening bracket. -/
def fields (field : σ → Reader σ) (start : σ) : Reader σ := do
  let state ← fieldsFrom field ((← get).length + 1) true start
  closeObject
  return state

/-- Reads a whole text: only blanks may follow. -/
def run (reader : Reader α) (text : String) : Except Fault α := do
  let (a, rest) ← reader text.toList
  if (rest.dropWhile isBlank).isEmpty then .ok a else .error .malformed

end Reader

end ConditionalStyles.Json
