namespace HungryTape

inductive Kind where
  | moveLeft
  | moveRight
  | increment
  | decrement
  | function
  | identifier
  | parenOpen
  | parenClose
  | number
  | printChar
  | printInt
  | readChar
  | readInt
  | newline
  | loopStart
  | loopEnd
  | cleanse
  | pass
  | comment
  | terminate
  | condStart
  | greater
  | less
  | equal
  | greaterOrEqual
  | lessOrEqual
  | notEqual
  | condEnd
  | mention
  | printLiteral
  | escape
  | multiply
  | divide
  | modulo
  | unknown
deriving DecidableEq, Repr, Inhabited

namespace Kind

def name : Kind → String
  | moveLeft => "move-left"
  | moveRight => "move-right"
  | increment => "increment"
  | decrement => "decrement"
  | function => "function-declaration"
  | identifier => "identifier"
  | parenOpen => "left-paren"
  | parenClose => "right-paren"
  | number => "number"
  | printChar => "print-char"
  | printInt => "print-int"
  | readChar => "read-char"
  | readInt => "read-int"
  | newline => "newline"
  | loopStart => "start-loop"
  | loopEnd => "end-loop"
  | cleanse => "cleanse"
  | pass => "continue"
  | comment => "break"
  | terminate => "terminate"
  | condStart => "if-start"
  | greater => "greater"
  | less => "less"
  | equal => "equal"
  | greaterOrEqual => "greater-or-equal"
  | lessOrEqual => "less-or-equal"
  | notEqual => "not-equal"
  | condEnd => "end-if"
  | mention => "mention-cell"
  | printLiteral => "putch"
  | escape => "escape-code"
  | multiply => "multiply"
  | divide => "divide"
  | modulo => "modulo"
  | unknown => "unknown"

def all : List Kind :=
  [moveLeft, moveRight, increment, decrement, function, identifier, parenOpen, parenClose, number,
   printChar, printInt, readChar, readInt, newline, loopStart, loopEnd, cleanse, pass, comment,
   terminate, condStart, greater, less, equal, greaterOrEqual, lessOrEqual, notEqual, condEnd,
   mention, printLiteral, escape, multiply, divide, modulo, unknown]

def ofName? (name : String) : Option Kind :=
  all.find? fun k => k.name = name

/-- The characters that are a token by themselves, in character order. -/
def punctuation : List (Char × Kind) :=
  [('\n', newline), ('#', cleanse), ('$', mention), ('%', modulo), ('&', readInt),
   ('(', parenOpen), (')', parenClose), ('*', multiply), ('+', increment), (',', readChar),
   ('-', decrement), ('.', printChar), ('/', divide), (':', terminate), (';', comment),
   ('<', moveLeft), ('=', printInt), ('>', moveRight), ('?', pass), ('@', printLiteral),
   ('G', greaterOrEqual), ('L', lessOrEqual), ('[', loopStart), ('\\', escape), (']', loopEnd),
   ('e', equal), ('f', function), ('g', greater), ('l', less), ('n', notEqual),
   ('\x7b', condStart), ('\x7d', condEnd)]

def ofChar? (c : Char) : Option Kind :=
  punctuation.lookup c

def isComparison : Kind → Bool
  | greater | less | equal | greaterOrEqual | lessOrEqual | notEqual => true
  | _ => false

end Kind

end HungryTape
