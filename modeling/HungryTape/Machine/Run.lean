import HungryTape.Machine.Halting

namespace HungryTape.Machine

/-- Takes tokens until the program ends. -/
def execute (p : Program) (m : Machine) : Except Fault Outcome × Machine :=
  match _h : m.step p with
  | .running m => execute p m
  | .finished result m => (result, m)
termination_by (p.size - m.low, m.passes, p.size - m.position)
decreasing_by
  rcases step_nearer _h with low | ⟨low, passes | ⟨passes, position⟩⟩
  · exact .left _ _ low
  · exact low ▸ .right _ (.left _ _ passes)
  · exact low ▸ passes ▸ .right _ (.right _ position)

/-- A fault of the program counts before a refused flush. -/
def verdict (result : Except Fault Outcome) (refusal : Option String) : Except Fault Outcome :=
  match result, refusal with
  | .error f, _ => .error f
  | .ok _, some message => .error (.stream message)
  | .ok outcome, none => .ok outcome

/-- Runs the program from where the machine stands. The output is flushed at the end, whether the
program failed or not. -/
def run (p : Program) (m : Machine) : Except Fault Outcome × Machine :=
  let (result, m) := (m.note (.executing p.size m.tape.capacity)).execute p
  (verdict result m.output.flushRefusal?, { m with output := m.output.flush })

end HungryTape.Machine
