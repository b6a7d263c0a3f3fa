import HungryTape.Text.Numeral

namespace HungryTape

namespace Cell

def least : Int := -2147483648

def greatest : Int := 2147483647

/-- The integers that a cell can hold. -/
def Fits (v : Int) : Prop :=
  least ≤ v ∧ v ≤ greatest

instance (v : Int) : Decidable (Fits v) :=
  inferInstanceAs (Decidable (_ ∧ _))

def lowByte (v : Int) : UInt8 :=
  (v % 256).toNat.toUInt8

end Cell

inductive Operator where
  | add
  | sub
  | mul
  | div
  | mod
deriving DecidableEq, Repr

inductive ArithmeticError where
  | divisionByZero
  | moduloByZero
  | overflow
deriving DecidableEq, Repr

namespace Operator

def symbol : Operator → String
  | add => "+"
  | sub => "-"
  | mul => "*"
  | div => "/"
  | mod => "%"

/-- The exact result; division goes toward zero and the remainder has the sign of the dividend. -/
def exact : Operator → Int → Int → Int
  | add, a, b => a + b
  | sub, a, b => a - b
  | mul, a, b => a * b
  | div, a, b => a.tdiv b
  | mod, a, b => a.tmod b

/-- What has to fit into a cell. A remainder comes with its quotient, and the quotient decides. -/
def widest : Operator → Int → Int → Int
  | mod, a, b => a.tdiv b
  | op, a, b => op.exact a b

def apply (op : Operator) (a b : Int) : Except ArithmeticError Int :=
  if op = .div ∧ b = 0 then .error .divisionByZero
  else if op = .mod ∧ b = 0 then .error .moduloByZero
  else if Cell.Fits (op.widest a b) then .ok (op.exact a b)
  else .error .overflow

end Operator

end HungryTape
