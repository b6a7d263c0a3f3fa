import HungryTape.Script

namespace HungryTape

structure Summary where
  completed : Nat := 0
  failed : Nat := 0
  /-- The outcome that cut the session short -/
  ending : Option Outcome := none
deriving DecidableEq, Repr

namespace Summary

def exitSuccess : Nat := 0

def exitStarved : Nat := 1

def exitError : Nat := 2

def exitCode (s : Summary) : Nat :=
  if s.ending = some .starved then exitStarved
  else if 0 < s.failed then exitError
  else exitSuccess

end Summary

/-- Scripts run one after the other. They share the streams, and each has a tape of its own. -/
structure Session extends Console, Summary where
  diagnostics : Output := {}
deriving DecidableEq, Repr

namespace Session

def note (s : Session) (e : Event) : Session :=
  { s with journal := s.journal.note e }

/-- Writes a listing to the diagnostics as far as they accept it. -/
def list (s : Session) (bytes : List UInt8) : Session :=
  { s with
    diagnostics := s.diagnostics.write bytes
    journal := s.journal.add (.listing (s.diagnostics.accepted bytes)) }

def perform (settings : Settings) (p : Program) (s : Session) :
    Except Failure Outcome × Session :=
  let (result, console) := Script.run settings p s.toConsole
  (result, { s with toConsole := console })

def announce (path : String) (p : Program) : List UInt8 :=
  Text.utf8 ("tokens of " ++ path ++ ":\n" ++ p.listing)

def attempt (files : FileSystem) (settings : Settings) (path : String) (s : Session) :
    Except Failure Outcome × Session :=
  let (loaded, journal) := Script.load files settings path s.journal
  let s := { s with journal }
  match loaded with
  | .error e => (.error e, s)
  | .ok p =>
    if settings.listTokens then
      match s.diagnostics.writeRefusal? (announce path p) with
      | none => (s.list (announce path p)).perform settings p
      | some message => (.error (.fault (.stream message)), s.list (announce path p))
    else s.perform settings p

/-- A script that fails is reported. One that ends by its own will or by starvation ends the whole
session. -/
def runFile (files : FileSystem) (settings : Settings) (s : Session) (path : String) : Session :=
  match (s.note (.running path)).attempt files settings path with
  | (.ok .completed, s) => { s.note (.completed path) with completed := s.completed + 1 }
  | (.ok ending, s) =>
    { s.note (.ended path ending) with completed := s.completed + 1, ending := some ending }
  | (.error e, s) =>
    { s with failed := s.failed + 1, journal := s.journal.add (.failure path e) }

def runFiles (files : FileSystem) (settings : Settings) (s : Session) : List String → Session
  | [] => s
  | path :: paths =>
    let s := s.runFile files settings path
    if s.ending.isSome then s else runFiles files settings s paths

/-- Runs the files in order and flushes what they printed. A refused flush is an error of the
session itself. -/
def runAll (files : FileSystem) (settings : Settings) (paths : List String) (s : Session) :
    Except String Summary × Session :=
  let s := s.runFiles files settings paths
  let result := match s.output.flushRefusal? with
    | none => .ok s.toSummary
    | some message => .error message
  (result, { s with output := s.output.flush })

end Session

end HungryTape
