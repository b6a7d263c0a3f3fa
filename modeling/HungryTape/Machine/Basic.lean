import HungryTape.Journal
import HungryTape.Program
import HungryTape.Stream.Output

namespace HungryTape

/-- What a program shares with the world around it. -/
structure Console where
  input : Input
  output : Output := {}
  journal : Journal := {}
deriving DecidableEq, Repr

/-- The loop in progress. Arming another one forgets it, so loops do not nest. -/
structure Loop where
  /-- The position of the token that armed the loop -/
  start : Nat
  /-- Passes left, the one in progress included -/
  remaining : Int
  /-- The count came from the current cell, which pays for every pass -/
  cellDriven : Bool
deriving DecidableEq, Repr

structure Machine extends Console where
  tape : Tape
  position : Nat := 0
  loop : Option Loop := none
  comparison : Option Comparison := none
  commented : Bool := false
deriving DecidableEq, Repr

/-- What follows an instruction. -/
inductive Flow where
  /-- Look at the stomach, then go to the next token -/
  | next
  /-- Go to the next token -/
  | skip
  | halt
deriving DecidableEq, Repr

namespace Machine

def ofTape (tape : Tape) (console : Console) : Machine :=
  { console with tape }

def cursor (m : Machine) (p : Program) : Cursor :=
  ⟨p, m.position⟩

def advance (m : Machine) : Machine :=
  { m with position := m.position + 1 }

def note (m : Machine) (e : Event) : Machine :=
  { m with journal := m.journal.note e }

def store (m : Machine) (v : Int) : Machine :=
  { m with tape := m.tape.store v }

def seek (m : Machine) (index : Nat) : Machine :=
  { m with tape := m.tape.seek index }

/-- An instruction that is decided before it acts: on a fault the machine stays as it was. -/
@[inline] def settle {α : Type} (m : Machine) (decision : Except Fault α)
    (act : Machine → α → Machine) : Except Fault Flow × Machine :=
  match decision with
  | .ok a => (.ok .next, act m a)
  | .error f => (.error f, m)

/-- The part of a refused write that fits has been written. -/
def emit (m : Machine) (bytes : List UInt8) : Except Fault Flow × Machine :=
  match m.output.writeRefusal? bytes with
  | none => (.ok .next, { m with output := m.output.write bytes })
  | some message => (.error (.stream message), { m with output := m.output.write bytes })

end Machine

end HungryTape
