import HungryTape.Comparison
import HungryTape.Outcome
import HungryTape.Text.Encoding

namespace HungryTape

/-- How much is written about a run, from nothing to everything. -/
inductive Level where
  | off
  | error
  | warn
  | info
  | debug
  | trace
deriving DecidableEq, Repr

namespace Level

def rank : Level → Nat
  | off => 0
  | error => 1
  | warn => 2
  | info => 3
  | debug => 4
  | trace => 5

def name : Level → String
  | off => "OFF"
  | error => "ERROR"
  | warn => "WARN"
  | info => "INFO"
  | debug => "DEBUG"
  | trace => "TRACE"

def ofName? (name : String) : Option Level :=
  [off, error, warn, info, debug, trace].find? fun l => l.name = name.map Char.toUpper

end Level

inductive Event where
  | scanned (characters tokens : Nat)
  | executing (tokens cells : Nat)
  | terminated (location : Location)
  | starved (stomach : Nat) (location : Location)
  | exhausted (location : Location) (cell : Nat) (value : Int)
  | armed (location : Location) (passes : Int) (cellDriven : Bool)
  | rewound (start : Nat) (passes : Int)
  | compared (comparison : Comparison) (location : Location)
  | running (path : String)
  | loaded (bytes : Nat) (path : String)
  | completed (path : String)
  | ended (path : String) (outcome : Outcome)
deriving DecidableEq, Repr

namespace Event

def level : Event → Level
  | terminated _ | starved .. | running _ | completed _ | ended .. => .info
  | scanned .. | executing .. | exhausted .. | loaded .. => .debug
  | armed .. | rewound .. | compared .. => .trace

/-- The part of the program that an event is logged under. -/
def origin : Event → String
  | scanned .. => "feedmei::lexer::scanner"
  | executing .. | terminated _ | starved .. | exhausted .. => "feedmei::interpreter::engine"
  | armed .. | rewound .. => "feedmei::interpreter::loops"
  | compared .. => "feedmei::interpreter::conditional"
  | running _ | loaded .. | completed _ | ended .. => "feedmei::runner"

def endingName : Outcome → String
  | .completed => "Completed"
  | .terminated => "Terminated"
  | .starved => "Starved"

def message : Event → String
  | scanned characters tokens =>
    "scanned " ++ Numeral.decimal characters ++ " characters into " ++ Numeral.decimal tokens ++
      " tokens"
  | executing tokens cells =>
    "executing " ++ Numeral.decimal tokens ++ " tokens on a tape of " ++ Numeral.decimal cells ++
      " cells"
  | terminated location => "program terminated at " ++ location.text
  | starved stomach location =>
    "stomach cell " ++ Numeral.decimal stomach ++ " went negative at " ++ location.text
  | exhausted location cell value =>
    "end of input at " ++ location.text ++ "; cell " ++ Numeral.decimal cell ++ " keeps " ++
      Numeral.signed value
  | armed location passes cellDriven =>
    "loop armed at " ++ location.text ++ " for " ++ Numeral.signed passes ++ " passes" ++
      (if cellDriven then " (cell-driven)" else "")
  | rewound start passes =>
    "rewinding to " ++ Numeral.decimal start ++ " with " ++ Numeral.signed passes ++ " passes left"
  | compared comparison location =>
    Numeral.signed comparison.left ++ " " ++ comparison.operator.name ++ " " ++
      Numeral.signed comparison.right ++ " is " ++
      (if comparison.holds then "true" else "false") ++ " at " ++ location.text
  | running path => "running " ++ path
  | loaded bytes path => "read " ++ Numeral.decimal bytes ++ " bytes from " ++ path
  | completed path => path ++ " completed"
  | ended path outcome => path ++ " ended the run: " ++ endingName outcome

def line (e : Event) : String :=
  Text.padRight 5 e.level.name ++ " [" ++ e.origin ++ "] " ++ e.message ++ "\n"

end Event

/-- Something said beside the program's own output. -/
inductive Remark where
  | event (e : Event)
  | listing (bytes : List UInt8)
  | failure (path : String) (cause : Failure)
deriving DecidableEq, Repr

def Remark.bytes : Remark → List UInt8
  | event e => Text.utf8 e.line
  | listing bytes => bytes
  | failure path cause => Text.utf8 ("error: " ++ path ++ ": " ++ cause.message ++ "\n")

/-- All remarks in the order they were made. Events below the threshold are not kept. -/
structure Journal where
  threshold : Level := .off
  remarks : Array Remark := #[]
deriving DecidableEq, Repr

namespace Journal

def note (j : Journal) (e : Event) : Journal :=
  if e.level.rank ≤ j.threshold.rank then { j with remarks := j.remarks.push (.event e) } else j

def add (j : Journal) (r : Remark) : Journal :=
  { j with remarks := j.remarks.push r }

def events (j : Journal) : List Event :=
  j.remarks.toList.filterMap fun
    | .event e => some e
    | _ => none

def failures (j : Journal) : List (String × Failure) :=
  j.remarks.toList.filterMap fun
    | .failure path cause => some (path, cause)
    | _ => none

def bytes (j : Journal) : List UInt8 :=
  j.remarks.toList.flatMap Remark.bytes

end Journal

end HungryTape
