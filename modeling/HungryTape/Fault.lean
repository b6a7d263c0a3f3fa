import HungryTape.Cell
import HungryTape.Stream.Input
import HungryTape.Token.Basic

namespace HungryTape

/-- Why the header of a conditional cannot be read, or where it has nowhere to go on. -/
inductive ConditionDefect where
  | endsInOperand
  | endsBeforeOperator
  | notAnOperand (found : Token)
  | noCellIndex (mention : Location)
  | noNewline
  | noEnd
deriving DecidableEq, Repr

def ConditionDefect.message : ConditionDefect → String
  | endsInOperand => "program ends inside the condition"
  | endsBeforeOperator => "program ends before the comparison operator"
  | notAnOperand found => "expected a number or '$' operand, found " ++ found.text
  | noCellIndex mention => "expected a cell index after '$' at " ++ mention.text
  | noNewline => "no newline after a true condition"
  | noEnd => "no '\x7d' after a false condition"

/-- The computation whose value no cell can hold. -/
inductive Overflow where
  | literal (digits : String)
  | operation (left : Int) (operator : Operator) (right : Int)
deriving DecidableEq, Repr

def Overflow.text : Overflow → String
  | literal digits => "literal " ++ digits
  | operation left operator right =>
    Numeral.signed left ++ " " ++ operator.symbol ++ " " ++ Numeral.signed right

/-- What stops a running program against its will. -/
inductive Fault where
  | cellOutOfRange (index : Int) (capacity : Nat) (location : Location)
  | divisionByZero (location : Location)
  | moduloByZero (location : Location)
  | malformedCondition (defect : ConditionDefect) (location : Location)
  | malformedArgument (found : Option Token) (location : Location)
  | unterminatedLoop (location : Location)
  | overflow (cause : Overflow) (location : Location)
  | invalidInput (defect : InputDefect) (location : Location)
  | stream (message : String)
deriving DecidableEq, Repr

namespace Fault

def location? : Fault → Option Location
  | cellOutOfRange _ _ l | divisionByZero l | moduloByZero l | malformedCondition _ l
  | malformedArgument _ l | unterminatedLoop l | overflow _ l | invalidInput _ l => some l
  | stream _ => none

def message : Fault → String
  | cellOutOfRange index capacity l =>
    "Cell " ++ Numeral.signed index ++ " out of range at " ++ l.sentence ++ ": the tape has " ++
      Numeral.decimal capacity ++ " cells"
  | divisionByZero l => "Division by zero at " ++ l.sentence
  | moduloByZero l => "Modulo by zero at " ++ l.sentence
  | malformedCondition defect l =>
    "Malformed conditional at " ++ l.sentence ++ ": " ++ defect.message
  | malformedArgument found l =>
    "Malformed argument at " ++ l.sentence ++ ": expected a cell index after '$', found " ++
      (found.map Token.text).getD "end of program"
  | unterminatedLoop l => "Loop started at " ++ l.sentence ++ " is never closed"
  | overflow cause l => "Integer overflow in operation: " ++ cause.text ++ " at " ++ l.sentence
  | invalidInput defect l => "Invalid input at " ++ l.sentence ++ ": " ++ defect.message
  | stream message => "I/O error: " ++ message

end Fault

/-- Arithmetic at a place of the program. -/
def Operator.applyAt (location : Location) (op : Operator) (a b : Int) : Except Fault Int :=
  match op.apply a b with
  | .ok v => .ok v
  | .error .divisionByZero => .error (.divisionByZero location)
  | .error .moduloByZero => .error (.moduloByZero location)
  | .error .overflow => .error (.overflow (.operation a op b) location)

end HungryTape
