import HungryTape.Token.Kind

namespace HungryTape

structure Comparison where
  left : Int
  operator : Kind
  right : Int
deriving DecidableEq, Repr

/-- A kind that is not a comparison never holds. -/
def Comparison.holds (c : Comparison) : Bool :=
  match c.operator with
  | .greater => c.left > c.right
  | .less => c.left < c.right
  | .equal => c.left = c.right
  | .greaterOrEqual => c.left ≥ c.right
  | .lessOrEqual => c.left ≤ c.right
  | .notEqual => c.left ≠ c.right
  | _ => false

/-- The token behind which execution goes on. -/
def Comparison.resume (c : Comparison) : Kind :=
  if c.holds then .newline else .condEnd

end HungryTape
