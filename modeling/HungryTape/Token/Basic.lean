import HungryTape.Text.Escape
import HungryTape.Token.Kind

namespace HungryTape

/-- A place in the source; lines and columns count from one. -/
structure Location where
  line : Nat
  column : Nat
deriving DecidableEq, Repr, Inhabited

namespace Location

def start : Location := ⟨1, 1⟩

def past (l : Location) (c : Char) : Location :=
  if c = '\n' then ⟨l.line + 1, 1⟩ else ⟨l.line, l.column + 1⟩

def text (l : Location) : String :=
  Numeral.decimal l.line ++ ":" ++ Numeral.decimal l.column

/-- The spelling of a place inside an error message. -/
def sentence (l : Location) : String :=
  "line " ++ Numeral.decimal l.line ++ ", column " ++ Numeral.decimal l.column

end Location

structure Token where
  kind : Kind
  lexeme : String
  location : Location
deriving DecidableEq, Repr, Inhabited

namespace Token

def text (t : Token) : String :=
  t.kind.name ++ " '" ++ Text.escape t.lexeme ++ "'"

def first? (t : Token) : Option Char :=
  t.lexeme.toList.head?

/-- The number that the lexeme spells, if it spells one. -/
def integer? (t : Token) : Option Int :=
  Numeral.integer? t.lexeme

def listingLine (t : Token) : String :=
  Text.padLeft 4 (Numeral.decimal t.location.line) ++ ":" ++
    Text.padRight 3 (Numeral.decimal t.location.column) ++ " " ++ t.text ++ "\n"

end Token

end HungryTape
