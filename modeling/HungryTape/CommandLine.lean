import HungryTape.Invocation
import HungryTape.Session

namespace HungryTape

/-- What a command line leaves behind. -/
structure Exit where
  code : Nat
  stdout : List UInt8 := []
  stderr : List UInt8 := []
deriving DecidableEq, Repr

namespace CommandLine

/-- The level named by the environment counts before the one from the options; other names are
ignored. -/
def level (settings : Settings) (requested : Option String) : Level :=
  (requested.bind Level.ofName?).getD settings.level

def perform (files : FileSystem) (input : List UInt8) (requested : Option String)
    (settings : Settings) (paths : List String) : Exit :=
  let start : Session :=
    { input := { rest := input }, journal := { threshold := level settings requested } }
  let (result, s) := start.runAll files settings paths
  match result with
  | .ok summary =>
    { code := summary.exitCode, stdout := s.output.written.toList, stderr := s.journal.bytes }
  | .error message =>
    { code := 1
      stdout := s.output.written.toList
      stderr := s.journal.bytes ++ Text.utf8
        ("Error: failed to write program output\n\nCaused by:\n    " ++ message ++ "\n") }

def run (program : String) (files : FileSystem) (input : List UInt8) (requested : Option String)
    (args : List String) : Exit :=
  match Invocation.parse args with
  | .ok .help => { code := Summary.exitSuccess, stdout := Text.utf8 (usage program ++ "\n") }
  | .ok (.run settings paths) => perform files input requested settings paths
  | .error e =>
    { code := Summary.exitError
      stderr := Text.utf8 ("error: " ++ e.message ++ "\n\n" ++ usage program ++ "\n") }

end CommandLine

end HungryTape
