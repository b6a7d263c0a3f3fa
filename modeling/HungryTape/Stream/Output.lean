namespace HungryTape

/-- The point from which a stream refuses, and what it says then. -/
structure Limit where
  amount : Nat
  message : String
deriving DecidableEq, Repr

/-- Bytes written so far, with their number at each flush. A write limit counts bytes and a flush
limit counts flushes. -/
structure Output where
  written : Array UInt8 := #[]
  flushes : Array Nat := #[]
  writeLimit : Option Limit := none
  flushLimit : Option Limit := none
deriving DecidableEq, Repr

namespace Output

def writeRefusal? (o : Output) (bytes : List UInt8) : Option String :=
  match o.writeLimit with
  | none => none
  | some limit =>
    if bytes.length ≤ limit.amount - o.written.size then none else some limit.message

/-- The part of a write that fits. -/
def accepted (o : Output) (bytes : List UInt8) : List UInt8 :=
  match o.writeLimit with
  | none => bytes
  | some limit => bytes.take (limit.amount - o.written.size)

def write (o : Output) (bytes : List UInt8) : Output :=
  { o with written := o.written.appendList (o.accepted bytes) }

def flushRefusal? (o : Output) : Option String :=
  match o.flushLimit with
  | none => none
  | some limit => if o.flushes.size < limit.amount then none else some limit.message

def flush (o : Output) : Output :=
  match o.flushRefusal? with
  | none => { o with flushes := o.flushes.push o.written.size }
  | some _ => o

theorem flush_written (o : Output) : o.flush.written = o.written := by
  unfold flush
  split <;> rfl

end Output

end HungryTape
