import ConditionalStyles.Json.Reader
import ConditionalStyles.Text.Characters

/-!
String literals. An escape for a unit needs four hexadecimal digits, and the two units of a
character above U+FFFF must follow each other; where a string is only passed over, single units of
such a pair are let through.
-/
namespace ConditionalStyles.Json.Reader

def hexValue? (c : Char) : Option Nat :=
  if '0' ≤ c ∧ c ≤ '9' then some (c.toNat - 48)
  else if 'a' ≤ c ∧ c ≤ 'f' then some (c.toNat - 87)
  else if 'A' ≤ c ∧ c ≤ 'F' then some (c.toNat - 55)
  else none

def byteCount (cs : List Char) : Nat := cs.foldl (fun n c => n + c.utf8Size) 0

/-- Four digits; a text that ends within four bytes is cut off, whatever it holds. -/
def hexUnit : Reader Nat
  | a :: b :: c :: d :: rest =>
    match hexValue? a, hexValue? b, hexValue? c, hexValue? d with
    | some a, some b, some c, some d => .ok (((a * 16 + b) * 16 + c) * 16 + d, rest)
    | _, _, _, _ => .error .malformed
  | s => if byteCount s < 4 then .error .truncated else .error .malformed

def simpleEscape? (c : Char) : Option Char :=
  match c with
  | '"' => some '"'
  | '\\' => some '\\'
  | '/' => some '/'
  | 'b' => some '\x08'
  | 'f' => some '\x0c'
  | 'n' => some '\n'
  | 'r' => some '\r'
  | 't' => some '\t'
  | _ => none

/-- The character of an escape after its `u`. -/
def unitEscape : Reader Char := do
  let lead ← hexUnit
  if Text.isTrailUnit lead then fail .malformed
  else if Text.isLeadUnit lead then
    expect '\\'
    expect 'u'
    let trail ← hexUnit
    if Text.isTrailUnit trail then return Text.joinUnits lead trail else fail .malformed
  else return Char.ofNat lead

/-- The character of an escape after its backslash. -/
def escaped : Reader Char := do
  let c ← take
  match simpleEscape? c with
  | some d => return d
  | none => if c = 'u' then unitEscape else fail .malformed

/-- The next character of a string, or `none` at its closing quote. -/
def character? : Reader (Option Char) := do
  let c ← take
  if c = '"' then return none
  else if c = '\\' then return some (← escaped)
  else if c.toNat < 0x20 then fail .malformed
  else return some c

def charactersFrom : Nat → Reader (List Char)
  | 0 => fail .truncated
  | rounds + 1 => do
    match ← character? with
    | none => return []
    | some c =>
      let rest ← charactersFrom rounds
      return c :: rest

/-- The text of a string literal after its opening quote. -/
def stringBody : Reader String := do
  let cs ← charactersFrom (← get).length
  return String.ofList cs

def skipEscaped : Reader Unit := do
  let c ← take
  if (simpleEscape? c).isSome then return ()
  else if c = 'u' then
    let _ ← hexUnit
  else fail .malformed

def skipStringFrom : Nat → Reader Unit
  | 0 => fail .truncated
  | rounds + 1 => do
    let c ← take
    if c = '"' then return ()
    else if c = '\\' then
      skipEscaped
      skipStringFrom rounds
    else if c.toNat < 0x20 then fail .malformed
    else skipStringFrom rounds

/-- Passes over a string literal after its opening quote. -/
def skipStringBody : Reader Unit := do
  skipStringFrom (← get).length

end ConditionalStyles.Json.Reader
