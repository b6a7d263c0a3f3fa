import HungryTape.Machine.Basic

/-!
Operands are read at fixed places after an instruction: `(5` is the number 5 and `($5` the value
of cell 5. A closing bracket is never asked for.
-/

namespace HungryTape

namespace Token

def literal (t : Token) : Except Fault Int :=
  match t.integer?.filter (Cell.Fits ·) with
  | some v => .ok v
  | none => .error (.overflow (.literal t.lexeme) t.location)

/-- An index is reported as a signed 64-bit word. What is no such word is off every tape that fits
into memory, and is reported as the greatest one. -/
def reported (t : Token) : Int :=
  (t.integer?.filter fun n => -9223372036854775808 ≤ n ∧ n ≤ 9223372036854775807).getD
    9223372036854775807

/-- The value of the cell that the number names. -/
def cell (t : Token) (tape : Tape) : Except Fault Int :=
  let outside := .error (.cellOutOfRange t.reported tape.capacity t.location)
  match t.integer? with
  | some (.ofNat index) =>
    match tape.get index with
    | .ok v => .ok v
    | .error _ => outside
  | _ => outside

end Token

namespace Cursor

/-- The cell named by the number at the offset, or nothing if no number stands there. -/
def mentioned (c : Cursor) (tape : Tape) (offset : Nat) : Except Fault (Option Int) :=
  match c.peek? offset with
  | some t => if t.kind = .number then (t.cell tape).map some else .ok none
  | none => .ok none

/-- The argument of the instruction under the cursor, if it has one. -/
def argument (c : Cursor) (tape : Tape) : Except Fault (Option Int) :=
  match c.kind? 1, c.peek? 2 with
  | some .parenOpen, some t =>
    match t.kind with
    | .number => t.literal.map some
    | .mention =>
      match c.mentioned tape 3 with
      | .ok none => .error (.malformedArgument (c.peek? 3) t.location)
      | found => found
    | _ => .ok none
  | _, _ => .ok none

def argumentOr (c : Cursor) (tape : Tape) (default : Int) : Except Fault Int :=
  (c.argument tape).map fun found => found.getD default

def conditionOperand (c : Cursor) (tape : Tape) (location : Location) (offset : Nat) :
    Except Fault Int :=
  match c.peek? offset with
  | none => .error (.malformedCondition .endsInOperand location)
  | some t =>
    match t.kind with
    | .number => t.literal
    | .mention =>
      match c.mentioned tape (offset + 1) with
      | .ok (some v) => .ok v
      | .ok none => .error (.malformedCondition (.noCellIndex t.location) location)
      | .error f => .error f
    | _ => .error (.malformedCondition (.notAnOperand t) location)

/-- The header of a conditional is positional: an operand two tokens on, the operator five tokens
on, and an operand seven tokens on. -/
def condition (c : Cursor) (tape : Tape) (location : Location) : Except Fault Comparison := do
  let left ← c.conditionOperand tape location 2
  match c.kind? 5 with
  | none => .error (.malformedCondition .endsBeforeOperator location)
  | some operator =>
    let right ← c.conditionOperand tape location 7
    return { left, operator, right }

end Cursor

end HungryTape
