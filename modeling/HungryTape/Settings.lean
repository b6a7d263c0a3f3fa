import HungryTape.Journal

namespace HungryTape

def defaultTapeSize : Nat := 128

def defaultSourceLimit : Nat := 2048

def defaultStomach : Nat := 0

/-- What holds for every script of one invocation. -/
structure Settings where
  tapeSize : Nat := defaultTapeSize
  /-- The longest accepted source, or none for sources of any length -/
  sourceLimit : Option Nat := some defaultSourceLimit
  stomach : Nat := defaultStomach
  listTokens : Bool := false
  verbosity : Nat := 0
deriving DecidableEq, Repr

namespace Settings

def level (s : Settings) : Level :=
  match s.verbosity with
  | 0 => .warn
  | 1 => .info
  | 2 => .debug
  | _ => .trace

/-- The count of a single flag is taken modulo 256, and the total stops at 255. -/
def louder (s : Settings) (steps : Nat) : Settings :=
  { s with verbosity := min 255 (s.verbosity + steps % 256) }

end Settings

end HungryTape
