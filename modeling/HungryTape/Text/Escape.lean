import HungryTape.Text.Numeral

/-!
Quoted text in messages. Printable ASCII stands for itself, the quotes and the backslash are
escaped, and everything else is written by its code point.
-/

namespace HungryTape.Text

def escapeChar (c : Char) : String :=
  match c with
  | '\t' => "\\t"
  | '\r' => "\\r"
  | '\n' => "\\n"
  | '\'' => "\\'"
  | '"' => "\\\""
  | '\\' => "\\\\"
  | c =>
    if 0x20 ≤ c.toNat ∧ c.toNat ≤ 0x7e then c.toString
    else "\\u\x7b" ++ Numeral.hexadecimal c.toNat ++ "\x7d"

def escape (text : String) : String :=
  String.join (text.toList.map escapeChar)

def padLeft (width : Nat) (text : String) : String :=
  String.ofList (text.toList.leftpad width ' ')

def padRight (width : Nat) (text : String) : String :=
  String.ofList (text.toList.rightpad width ' ')

end HungryTape.Text
