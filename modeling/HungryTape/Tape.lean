import HungryTape.Cell

namespace HungryTape

/-- A bounded row of cells with a current cell, where the instructions work, and a stomach cell,
which pays for every line. -/
structure Tape where
  cells : Array Int
  current : Nat
  stomach : Nat
deriving DecidableEq, Repr

structure CellOutOfRange where
  index : Int
  capacity : Nat
deriving DecidableEq, Repr

def CellOutOfRange.message (e : CellOutOfRange) : String :=
  "cell " ++ Numeral.signed e.index ++ " is outside the tape (0.." ++
    Numeral.decimal e.capacity ++ ")"

/-- Indices are reported as signed 64-bit words: from 2^63 on they read as negative. -/
def signedWord (n : Nat) : Int :=
  (n : Int).bmod 18446744073709551616

namespace Tape

def ofCapacity (capacity stomach : Nat) : Except CellOutOfRange Tape :=
  if stomach < capacity then .ok ⟨Array.replicate capacity 0, 0, stomach⟩
  else .error ⟨signedWord stomach, capacity⟩

/-- Both indices are on the tape and every cell holds a cell value. -/
structure Valid (t : Tape) : Prop where
  current_lt : t.current < t.cells.size
  stomach_lt : t.stomach < t.cells.size
  fits : ∀ v ∈ t.cells, Cell.Fits v

def capacity (t : Tape) : Nat :=
  t.cells.size

def value (t : Tape) : Int :=
  t.cells.getD t.current 0

def store (t : Tape) (v : Int) : Tape :=
  { t with cells := t.cells.setIfInBounds t.current v }

def seek (t : Tape) (index : Nat) : Tape :=
  { t with current := index }

/-- The index that a move by `delta` reaches. -/
def target (t : Tape) (delta : Int) : Except CellOutOfRange Nat :=
  let index := t.current + delta
  if 0 ≤ index ∧ index < t.cells.size then .ok index.toNat else .error ⟨index, t.cells.size⟩

def get (t : Tape) (index : Nat) : Except CellOutOfRange Int :=
  match t.cells[index]? with
  | some v => .ok v
  | none => .error ⟨signedWord index, t.cells.size⟩

def stomachValue (t : Tape) : Int :=
  t.cells.getD t.stomach 0

/-- Takes one unit of food from the stomach; a stomach at the least cell value stays there. -/
def feed (t : Tape) : Tape :=
  { t with cells := t.cells.setIfInBounds t.stomach (max Cell.least (t.stomachValue - 1)) }

def starving (t : Tape) : Bool :=
  t.stomachValue < 0

end Tape

end HungryTape
