import ConditionalStyles.Condition.Basic

/-!
Toggles: pairs of custom properties that carry a truth value. A toggle has two channels, numbered 0
and 1; the channel of the present truth value is invalid, so that a reference to it falls through,
and the other one is blank. The toggle of a compound condition is made from those of two operands.
-/
namespace ConditionalStyles

/-- The blanks between the parts of a printed text. -/
structure Spacing where
  space : String
  newline : String
  indent : String
  /-- How a blank value is written. -/
  blank : String
  deriving DecidableEq, Repr

namespace Spacing

def compact : Spacing := ⟨"", "", "", " "⟩

def readable : Spacing := ⟨" ", "\n", "  ", ""⟩

def ofReadable (wanted : Bool) : Spacing := if wanted then readable else compact

def indentation (s : Spacing) (level : Nat) : String := String.join (List.replicate level s.indent)

end Spacing

structure Channel where
  toggle : String
  on : Bool
  deriving DecidableEq, Repr

namespace Channel

def property (c : Channel) : String := "--" ++ c.toggle ++ (if c.on then "-1" else "-0")

def reference (c : Channel) : String := "var(" ++ c.property ++ ")"

def referenceOr (c : Channel) (s : Spacing) (fallback : String) : String :=
  "var(" ++ c.property ++ "," ++ s.space ++ fallback ++ ")"

end Channel

/-- What a channel is set to. -/
inductive Signal where
  /-- The value that makes references fall through. -/
  | invalid
  | blank
  /-- Both channels one after the other: invalid if one of them is. -/
  | both (a b : Channel)
  /-- The first channel, or the second if it is invalid: invalid if both are. -/
  | either (a b : Channel)
  deriving DecidableEq, Repr

def Signal.text (s : Spacing) : Signal → String
  | invalid => "initial"
  | blank => s.blank
  | both a b => a.reference ++ s.space ++ b.reference
  | either a b => a.referenceOr s b.reference

structure Declaration where
  channel : Channel
  signal : Signal
  deriving DecidableEq, Repr

def Declaration.text (s : Spacing) (level : Nat) (d : Declaration) : String :=
  s.indentation level ++ d.channel.property ++ ":" ++ s.space ++ d.signal.text s ++ ";" ++ s.newline

/-- A pair of channels, read with their numbers exchanged when it is swapped. -/
structure Toggle where
  id : String
  swapped : Bool := false
  deriving DecidableEq, Repr

namespace Toggle

def swap (t : Toggle) : Toggle := ⟨t.id, !t.swapped⟩

def channel (t : Toggle) (on : Bool) : Channel := ⟨t.id, on != t.swapped⟩

/-- A channel of a compound is invalid exactly when the compound has its truth value. -/
def signal (k : Connective) (a b : Toggle) (on : Bool) : Signal :=
  if on = k.neutral then .either (a.channel on) (b.channel on)
  else .both (a.channel on) (b.channel on)

/-- Both channels of a compound of two toggles. -/
def wire (id : String) (k : Connective) (a b : Toggle) : List Declaration :=
  [⟨⟨id, false⟩, signal k a b false⟩, ⟨⟨id, true⟩, signal k a b true⟩]

/-- Both channels of a toggle with a known truth value. -/
def settle (id : String) (value : Bool) : List Declaration :=
  [⟨⟨id, false⟩, if value then .blank else .invalid⟩,
    ⟨⟨id, true⟩, if value then .invalid else .blank⟩]

end Toggle

end ConditionalStyles
