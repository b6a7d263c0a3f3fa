import HungryTape.Machine.Dispatch

namespace HungryTape

def starvationMessage : String := "The program died of starvation :("

/-- Where a machine stands after one token. -/
inductive Progress where
  | running (m : Machine)
  | finished (result : Except Fault Outcome) (m : Machine)

namespace Machine

/-- A negative stomach ends the program with a message of its own. -/
def starve (location : Location) (m : Machine) : Progress :=
  let m := m.note (.starved m.tape.stomach location)
  match m.emit (Text.utf8 (starvationMessage ++ "\n")) with
  | (.ok _, m) => .finished (.ok .starved) m
  | (.error f, m) => .finished (.error f) m

/-- Inside a comment only its newline matters, and it ends the comment and does nothing else. -/
def stepOver (t : Token) (m : Machine) : Machine :=
  { m with commented := t.kind ≠ Kind.newline }.advance

def settled (t : Token) : Except Fault Flow × Machine → Progress
  | (.error f, m) => .finished (.error f) m
  | (.ok .halt, m) => .finished (.ok .terminated) (m.note (.terminated t.location))
  | (.ok .skip, m) => .running m.advance
  | (.ok .next, m) => if m.tape.starving then m.starve t.location else .running m.advance

/-- Takes the token under the cursor. -/
def step (p : Program) (m : Machine) : Progress :=
  match p[m.position]? with
  | none => .finished (.ok .completed) m
  | some t => if m.commented then .running (m.stepOver t) else settled t (m.dispatch p t)

end Machine

end HungryTape
