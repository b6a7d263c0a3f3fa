import HungryTape.Token.Basic

/-!
From characters to tokens. A character of the punctuation table is a token by itself, even where
a word could start, digits and words run as far as they can, and every other character is a token
of unknown kind. So nothing of a source is lost.
-/

namespace HungryTape

/-- The kind of the token that starts with `c`, and the characters of `rest` that belong to it. -/
def lexemeTail (c : Char) (rest : List Char) : Kind × List Char :=
  match Kind.ofChar? c with
  | some kind => (kind, [])
  | none =>
    if c.isDigit then (.number, rest.takeWhile Char.isDigit)
    else if c.isAlpha then (.identifier, rest.takeWhile Char.isAlphanum)
    else (.unknown, [])

structure SourceTooLarge where
  length : Nat
  limit : Nat
deriving DecidableEq, Repr

def SourceTooLarge.message (e : SourceTooLarge) : String :=
  "Source too large: " ++ Numeral.decimal e.length ++ " characters, limit is " ++
    Numeral.decimal e.limit

/-- A source that is being read. The limit is on the whole source, so a source that is too large
stays so however often it is asked for its tokens. -/
structure Scanner where
  length : Nat
  limit : Option Nat
  rest : List Char
  location : Location
deriving Repr

namespace Scanner

def ofSource (source : String) (limit : Option Nat) : Scanner :=
  { length := source.length, limit, rest := source.toList, location := .start }

def tokenAt (location : Location) (c : Char) (rest : List Char) : Token :=
  let (kind, tail) := lexemeTail c rest
  { kind, lexeme := String.ofList (c :: tail), location }

def collect (tokens : Array Token) (location : Location) : List Char → Array Token
  | [] => tokens
  | c :: rest =>
    let tail := (lexemeTail c rest).2
    collect (tokens.push (tokenAt location c rest)) ((c :: tail).foldl .past location)
      (rest.drop tail.length)
termination_by rest => rest.length
decreasing_by simp only [List.length_drop, List.length_cons]; omega

def tooLarge? (s : Scanner) : Option SourceTooLarge :=
  match s.limit with
  | none => none
  | some limit => if limit < s.length then some ⟨s.length, limit⟩ else none

def read (s : Scanner) : Except SourceTooLarge (Array Token) :=
  match s.tooLarge? with
  | some e => .error e
  | none => .ok (collect #[] s.location s.rest)

/-- The scanner after its tokens have been read: nothing is left, unless it was refused. -/
def drained (s : Scanner) : Scanner :=
  if s.tooLarge?.isSome then s
  else { s with rest := [], location := s.rest.foldl .past s.location }

end Scanner

end HungryTape
