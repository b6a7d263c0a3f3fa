import HungryTape.Cell
import HungryTape.Text.Encoding
import HungryTape.Text.Escape

namespace HungryTape

/-- Bytes waiting to be read. A stream with a `failure` does not end: looking past its last byte
fails with that message. -/
structure Input where
  rest : List UInt8
  consumed : Nat := 0
  failure : Option String := none
deriving DecidableEq, Repr

inductive InputDefect where
  | notAnInteger (found : Char)
  | noDigits (sign : Char)
  | tooLarge (text : String)
deriving DecidableEq, Repr

def InputDefect.message : InputDefect → String
  | notAnInteger found => "expected an integer, found '" ++ Text.escapeChar found ++ "'"
  | noDigits sign => "expected digits after '" ++ sign.toString ++ "'"
  | tooLarge text => "integer " ++ text ++ " does not fit in a cell"

inductive Reading where
  | value (v : Int)
  | exhausted
  | invalid (defect : InputDefect)
  | failed (message : String)
deriving DecidableEq, Repr

/-- The blanks of ASCII without the vertical tab. -/
def isBlank (b : UInt8) : Bool :=
  b = 32 || b = 9 || b = 10 || b = 12 || b = 13

def isDigitByte (b : UInt8) : Bool :=
  48 ≤ b && b ≤ 57

def isSignByte (b : UInt8) : Bool :=
  b = 43 || b = 45

namespace Input

def skip (i : Input) (n : Nat) : Input :=
  { i with rest := i.rest.drop n, consumed := i.consumed + min n i.rest.length }

def skipBlanks (i : Input) : Input :=
  i.skip (i.rest.takeWhile isBlank).length

/-- What a look at an empty rest says. -/
def atEnd (i : Input) : Reading :=
  match i.failure with
  | some message => .failed message
  | none => .exhausted

def readChar (i : Input) : Reading × Input :=
  let i := i.skipBlanks
  match i.rest with
  | [] => (i.atEnd, i)
  | b :: _ => (.value b.toNat, i.skip 1)

def integer (sign digits : List Char) : Reading :=
  let magnitude := Numeral.ofDecimal digits
  let v : Int := if sign = ['-'] then -magnitude else magnitude
  if Cell.Fits v then .value v else .invalid (.tooLarge (String.ofList (sign ++ digits)))

/-- What a sign and digits say when `next` is the first byte that does not belong to them. -/
def interpret (sign digits : List Char) (next : Option UInt8) : Reading :=
  match sign, digits, next with
  | sign, d :: digits, _ => integer sign (d :: digits)
  | s :: _, [], _ => .invalid (.noDigits s)
  | [], [], some b => .invalid (.notAnInteger (Text.latin1Char b))
  | [], [], none => .exhausted

/-- Reads a sign and digits after blanks. The byte after them is looked at and left in place, so a
stream that fails instead of ending also fails when its last byte is a digit. -/
def readInt (i : Input) : Reading × Input :=
  let i := i.skipBlanks
  let sign := (i.rest.take 1).filter isSignByte
  let digits := (i.rest.drop sign.length).takeWhile isDigitByte
  let after := i.skip (sign.length + digits.length)
  match after.rest, after.failure with
  | [], some message => (.failed message, after)
  | rest, _ =>
    (interpret (sign.map Text.latin1Char) (digits.map Text.latin1Char) rest.head?, after)

end Input

end HungryTape
