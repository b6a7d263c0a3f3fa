import HungryTape.Fault
import HungryTape.Tape
import HungryTape.Token.Scan

namespace HungryTape

/-- How a program that did not fail came to its end. -/
inductive Outcome where
  | completed
  | terminated
  | starved
deriving DecidableEq, Repr

/-- What keeps a script from an outcome. -/
inductive Failure where
  | notFound (path : String)
  | unreadable (path message : String)
  | badTape (cause : CellOutOfRange)
  | tooLarge (cause : SourceTooLarge)
  | fault (cause : Fault)
deriving DecidableEq, Repr

namespace Failure

def message : Failure → String
  | notFound path => "File '" ++ path ++ "' not found"
  | unreadable path message => "Could not read '" ++ path ++ "': " ++ message
  | badTape cause => "Invalid tape: stomach " ++ cause.message
  | tooLarge cause => cause.message
  | fault cause => cause.message

/-- The text of the failure underneath, if there is one. -/
def cause? : Failure → Option String
  | notFound _ => none
  | unreadable _ message => some message
  | badTape cause => some cause.message
  | tooLarge cause => some cause.message
  | fault cause => some cause.message

end Failure

end HungryTape
