/-!
Records of what happens while hooks are created, compiled and merged. Each event has a level, the
part of the library it comes from, and a message; a logger shows the events up to its level.
-/
namespace ConditionalStyles

inductive Level where
  | error
  | warn
  | info
  | debug
  | trace
  deriving DecidableEq, Repr

namespace Level

/-- More detailed levels have a higher rank. -/
def rank : Level → Nat
  | error => 1
  | warn => 2
  | info => 3
  | debug => 4
  | trace => 5

def name : Level → String
  | error => "ERROR"
  | warn => "WARN"
  | info => "INFO"
  | debug => "DEBUG"
  | trace => "TRACE"

def every : List Level := [error, warn, info, debug, trace]

/-- Names are recognised whatever the case of their letters. -/
def ofName? (s : String) : Option Level :=
  every.find? fun level => level.name.toList == s.toList.map Char.toUpper

end Level

inductive Event where
  /-- A hook without atoms is left out. -/
  | hookOmitted (name : String)
  | hooksCreated (kept declared : Nat)
  | sheetCompiled (leaves bytes : Nat)
  /-- An override names a hook that is not there. -/
  | hookMissing (name : String)
  | overrideOmitted (properties : Nat)
  | valueOmitted (property : String)
  deriving DecidableEq, Repr

namespace Event

def level : Event → Level
  | hookOmitted _ => .debug
  | hooksCreated _ _ => .debug
  | sheetCompiled _ _ => .debug
  | hookMissing _ => .trace
  | overrideOmitted _ => .trace
  | valueOmitted _ => .trace

def origin : Event → String
  | hookOmitted _ => "hooks::system"
  | hooksCreated _ _ => "hooks::system"
  | sheetCompiled _ _ => "hooks::stylesheet"
  | hookMissing _ => "hooks::merge"
  | overrideOmitted _ => "hooks::merge"
  | valueOmitted _ => "hooks::merge"

def message : Event → String
  | hookOmitted name => "hook `" ++ name ++ "` never applies; left out of the style sheet"
  | hooksCreated kept declared =>
    "created " ++ toString kept ++ " hooks (" ++ toString declared ++ " declared)"
  | sheetCompiled leaves bytes =>
    "compiled style sheet: " ++ toString leaves ++ " toggle leaves, " ++ toString bytes ++ " bytes"
  | hookMissing name => "hook `" ++ name ++ "` is undeclared or never applies"
  | overrideOmitted properties =>
    "override of " ++ toString properties ++ " properties never applies; skipped"
  | valueOmitted property => "`" ++ property ++ "` value cannot be stringified; skipped"

def line (e : Event) : String :=
  "[" ++ e.level.name ++ "] " ++ e.origin ++ ": " ++ e.message ++ "\n"

end Event

/-- The level of a logger, if one is installed. -/
abbrev Logger := Option Level

namespace Logger

/-- Only the first installation counts. -/
def install (logger : Logger) (level : Option Level) : Logger := logger <|> level

def shows (logger : Logger) (e : Event) : Bool :=
  logger.any fun level => e.level.rank ≤ level.rank

def text (logger : Logger) (events : List Event) : String :=
  String.join ((events.filter logger.shows).map Event.line)

end Logger

end ConditionalStyles
