import ConditionalStyles.Text.Unmarked

/-!
How characters are spelled. In string literals of JSON texts quotes, backslashes and control
characters are escaped, and every other character, also beyond ASCII, stands for itself. In quoted
texts for messages characters that leave no mark of their own are written as codes. A character
above U+FFFF is spelled as a leading and a trailing unit of sixteen bits; every other character is
one unit, its own code.
-/
namespace ConditionalStyles.Text

section Literals

/-- Lower case. -/
def hexDigit (n : Nat) : Char :=
  if n < 10 then Char.ofNat (48 + n) else Char.ofNat (87 + n)

def escapeChar (c : Char) : List Char :=
  if c = '"' then ['\\', '"']
  else if c = '\\' then ['\\', '\\']
  else if c = '\x08' then ['\\', 'b']
  else if c = '\x0c' then ['\\', 'f']
  else if c = '\n' then ['\\', 'n']
  else if c = '\r' then ['\\', 'r']
  else if c = '\t' then ['\\', 't']
  else if c.toNat < 0x20 then
    ['\\', 'u', '0', '0', hexDigit (c.toNat / 16), hexDigit (c.toNat % 16)]
  else [c]

def escape (cs : List Char) : List Char := cs.flatMap escapeChar

def literal (s : String) : String := String.ofList ('"' :: (escape s.toList ++ ['"']))

end Literals

section Messages

def hexDigits (n : Nat) : List Char := Nat.toDigits 16 n

def quotedChar (c : Char) : List Char :=
  match c with
  | '\x00' => ['\\', '0']
  | '\t' => ['\\', 't']
  | '\n' => ['\\', 'n']
  | '\r' => ['\\', 'r']
  | '"' => ['\\', '"']
  | '\\' => ['\\', '\\']
  | _ =>
    if isUnmarked c then ['\\', 'u', '\x7b'] ++ hexDigits c.toNat ++ ['\x7d'] else [c]

def quoted (s : String) : String :=
  String.ofList ('"' :: (s.toList.flatMap quotedChar ++ ['"']))

end Messages

section Units

def isLeadUnit (n : Nat) : Bool := 0xD800 ≤ n && n < 0xDC00

def isTrailUnit (n : Nat) : Bool := 0xDC00 ≤ n && n < 0xE000

/-- The code of a character above U+FFFF, counted from there: twenty bits. -/
def upperCode (c : Char) : UInt32 := c.val - 0x10000

def charUnits (c : Char) : List UInt32 :=
  if c.val < 0x10000 then
    [c.val]
  else
    [(0xD800 : UInt32) + (upperCode c >>> 10), (0xDC00 : UInt32) + (upperCode c &&& 0x3FF)]

def units (s : String) : List UInt32 := s.toList.flatMap charUnits

/-- The character that a leading and a trailing unit spell together. -/
def joinUnits (lead trail : Nat) : Char :=
  Char.ofNat (0x10000 + (lead - 0xD800) * 0x400 + (trail - 0xDC00))

end Units

end ConditionalStyles.Text
