import ConditionalStyles.Registry

/-!
An example: six check boxes, their labels, and statements about which of them are checked. The
styles of labels follow their own box and the pointer; a statement is muted where it is false.
-/
namespace ConditionalStyles.Checkboxes

def boxes : List String := ["a", "b", "c", "d", "e", "f"]

def boxScope (name : String) : Scope := .selector (":has([name='" ++ name ++ "']:checked) &")

def hover : Condition Scope :=
  .all [.atom (.selector "&:hover"), .atom (.atRule "@media (hover:hover)")]

def config (readable : Bool) : Configuration :=
  let declared : Configuration :=
    boxes.foldl (fun config name => config.hook name (.atom (boxScope name))) {}
  { declared.hook "hover" hover with readable }

def written (entries : List (String × String)) : Style :=
  .ofList (entries.map fun entry => (entry.1, .string entry.2))

def when (condition : Condition String) (entries : List (String × String)) : Block :=
  { overrides := [⟨condition, written entries⟩] }

def label (name : String) : List Block :=
  [{ properties := written [("text-align", "center")] },
    when (.atom name) [("background", "black"), ("color", "white")],
    when (.all [.atom "hover", .not (.atom name)]) [("background", "#ccc")],
    when (.all [.atom "hover", .atom name]) [("background", "#333")]]

def every (names : List String) : Condition String := .all (names.map .atom)

def oneOf (names : List String) : Condition String := .any (names.map .atom)

/-- All boxes of the first list are checked, and none of the second. -/
def apart (names others : List String) : Condition String :=
  .all (names.map .atom ++ [.not (oneOf others)])

/-- Statements and where they are muted. -/
def statements : List (String × Condition String) :=
  [("None selected", oneOf boxes),
    ("Any selected", .not (oneOf boxes)),
    ("All selected", .not (every boxes)),
    ("ab, cd, or ef selected", .not (.any [every ["a", "b"], every ["c", "d"], every ["e", "f"]])),
    ("abc xor def selected",
      .not (.any [apart ["a", "b", "c"] ["d", "e", "f"], apart ["d", "e", "f"] ["a", "b", "c"]]))]

/-- The titles and blocks of all elements. -/
def elements : List (String × List Block) :=
  boxes.map (fun name => ("label " ++ name, label name)) ++
    statements.map fun entry => (entry.1, [when entry.2 [("color", "#999")]])

def registry (readable : Bool) : Registry := .create (config readable) .generic

def styleText (r : Registry) (element : String × List Block) : String :=
  element.1 ++ ": " ++ (Json.Value.object (r.css element.2).entries).pretty ++ "\n"

def report (readable : Bool) : String :=
  (registry readable).styleSheet.1 ++ "\n\n" ++
    String.join (elements.map (styleText (registry readable)))

def events (readable : Bool) : List Event :=
  (registry readable).createEvents (config readable) ++ (registry readable).styleSheetEvents ++
    elements.flatMap fun element => (registry readable).styling.events element.2

/-- Whether the arguments ask for texts laid out for people. -/
def wantsReadable (arguments : List String) : Bool := arguments.contains "--debug"

end ConditionalStyles.Checkboxes
