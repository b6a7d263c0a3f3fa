import HungryTape.Machine.Operand

namespace HungryTape.Machine

/-- The cell that a move by the argument times `direction` reaches; without an argument it goes
one cell. -/
def destination (p : Program) (t : Token) (direction : Int) (m : Machine) : Except Fault Nat := do
  let distance ← (m.cursor p).argumentOr m.tape 1
  match m.tape.target (direction * distance) with
  | .ok index => .ok index
  | .error e => .error (.cellOutOfRange e.index e.capacity t.location)

def move (p : Program) (t : Token) (direction : Int) (m : Machine) : Except Fault Flow × Machine :=
  m.settle (m.destination p t direction) seek

def adjust (p : Program) (t : Token) (op : Operator) (m : Machine) :
    Except Fault Flow × Machine :=
  m.settle ((m.cursor p).argumentOr m.tape 1 >>= op.applyAt t.location m.tape.value) store

/-- Without an argument there is nothing to do. -/
def scale (p : Program) (t : Token) (op : Operator) (m : Machine) :
    Except Fault Flow × Machine :=
  match (m.cursor p).argument m.tape with
  | .error f => (.error f, m)
  | .ok none => (.ok .next, m)
  | .ok (some factor) => m.settle (op.applyAt t.location m.tape.value factor) store

def cleanse (m : Machine) : Machine :=
  if 0 < m.tape.value then m.store 0 else m

/-- What was printed so far is flushed before the machine waits for input. -/
def read (reader : Input → Reading × Input) (t : Token) (m : Machine) :
    Except Fault Flow × Machine :=
  match m.output.flushRefusal? with
  | some message => (.error (.stream message), m)
  | none =>
    let m := { m with output := m.output.flush }
    let (reading, input) := reader m.input
    let m := { m with input }
    match reading with
    | .value v => (.ok .next, m.store v)
    | .exhausted => (.ok .next, m.note (.exhausted t.location m.tape.current m.tape.value))
    | .invalid defect => (.error (.invalidInput defect t.location), m)
    | .failed message => (.error (.stream message), m)

/-- The loop that the token under the cursor arms. -/
def loopHere (p : Program) (m : Machine) : Except Fault Loop := do
  match ← (m.cursor p).argument m.tape with
  | some count => return ⟨m.position, count, false⟩
  | none => return ⟨m.position, m.tape.value, true⟩

def arm (p : Program) (t : Token) (m : Machine) : Except Fault Flow × Machine :=
  m.settle (m.loopHere p) fun m loop =>
    { m with loop := some loop }.note (.armed t.location loop.remaining loop.cellDriven)

/-- A line costs one unit of food, and its newline arms a loop. -/
def newLine (p : Program) (t : Token) (m : Machine) : Except Fault Flow × Machine :=
  arm p t { m with tape := m.tape.feed }

def openLoop (p : Program) (t : Token) (m : Machine) : Except Fault Flow × Machine :=
  if ((m.cursor p).findLive? .loopEnd).isNone then (.error (.unterminatedLoop t.location), m)
  else m.arm p t

/-- Goes back to the armed position while passes are left. The arming token is stepped over and
does not arm its loop again. -/
def rewind (loop : Loop) (m : Machine) : Except Fault Flow × Machine :=
  if 0 < loop.remaining then
    (.ok .skip, { m with position := loop.start }.note (.rewound loop.start loop.remaining))
  else (.ok .next, { m with loop := none })

def closeLoop (t : Token) (m : Machine) : Except Fault Flow × Machine :=
  match m.loop with
  | none => (.ok .next, m)
  | some loop =>
    if loop.remaining ≤ 0 then (.ok .next, { m with loop := none })
    else
      let loop := { loop with remaining := loop.remaining - 1 }
      let m := { m with loop := some loop }
      if loop.cellDriven then
        match Operator.sub.applyAt t.location m.tape.value 1 with
        | .ok v => (m.store v).rewind loop
        | .error f => (.error f, m)
      else m.rewind loop

/-- Goes on behind the next newline if the condition holds and behind the next closing brace if
not. Comments do not hide either of them. -/
def branch (p : Program) (t : Token) (m : Machine) : Except Fault Flow × Machine :=
  match (m.cursor p).condition m.tape t.location with
  | .error f => (.error f, m)
  | .ok comparison =>
    let m := { m with comparison := some comparison }.note (.compared comparison t.location)
    match (m.cursor p).find? comparison.resume with
    | some target => (.ok .next, { m with position := target })
    | none =>
      let missing := if comparison.holds then .noNewline else .noEnd
      (.error (.malformedCondition missing t.location), m)

/-- The character that an escape prints; other escapes print nothing. -/
def escaped : Option Char → List UInt8
  | some 'n' => [10]
  | some 'w' => [32]
  | some 't' => [9]
  | some '\\' => [92]
  | _ => []

/-- Prints the first character of the next token and steps over that token, or prints an escape
and stays. -/
def printLiteral (p : Program) (m : Machine) : Except Fault Flow × Machine :=
  match (m.cursor p).peek? 1 with
  | none => (.ok .next, m)
  | some next =>
    if next.kind = .escape then m.emit (escaped (((m.cursor p).peek? 2).bind Token.first?))
    else
      match m.emit ((next.first?.map Text.charBytes).getD []) with
      | (.ok flow, m) => (.ok flow, m.advance)
      | (.error f, m) => (.error f, m)

def dispatch (p : Program) (t : Token) (m : Machine) : Except Fault Flow × Machine :=
  match t.kind with
  | .moveLeft => m.move p t (-1)
  | .moveRight => m.move p t 1
  | .increment => m.adjust p t .add
  | .decrement => m.adjust p t .sub
  | .multiply => m.scale p t .mul
  | .divide => m.scale p t .div
  | .modulo => m.scale p t .mod
  | .printChar => m.emit [Cell.lowByte m.tape.value]
  | .printInt => m.emit (Text.utf8 (Numeral.signed m.tape.value ++ "\n"))
  | .printLiteral => m.printLiteral p
  | .readChar => m.read Input.readChar t
  | .readInt => m.read Input.readInt t
  | .cleanse => (.ok .next, m.cleanse)
  | .newline => m.newLine p t
  | .loopStart => m.openLoop p t
  | .loopEnd => m.closeLoop t
  | .condStart => m.branch p t
  | .condEnd => (.ok .next, { m with comparison := none })
  | .comment => (.ok .next, { m with commented := true })
  | .pass => (.ok .skip, m)
  | .terminate => (.ok .halt, m)
  | .function | .identifier | .parenOpen | .parenClose | .number | .greater | .less | .equal
  | .greaterOrEqual | .lessOrEqual | .notEqual | .mention | .escape | .unknown => (.ok .next, m)

end HungryTape.Machine
