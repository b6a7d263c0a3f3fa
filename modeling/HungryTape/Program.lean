import HungryTape.Token.Scan

namespace HungryTape

abbrev Program := Array Token

namespace Program

def ofSource (source : String) (limit : Option Nat) : Except SourceTooLarge Program :=
  (Scanner.ofSource source limit).read

def listing (p : Program) : String :=
  String.join (p.toList.map Token.listingLine)

/-- The first index from `i` on whose token satisfies the test. -/
def findFrom? (p : Program) (test : Token → Bool) (i : Nat) : Option Nat :=
  if _h : i < p.size then
    if test p[i] then some i else p.findFrom? test (i + 1)
  else none
termination_by p.size - i

theorem le_of_findFrom? {p : Program} {test : Token → Bool} {i j : Nat}
    (h : p.findFrom? test i = some j) : i ≤ j := by
  fun_induction findFrom? p test i with
  | case1 i _ _ =>
    cases h
    exact Nat.le_refl _
  | case2 i _ _ ih => exact Nat.le_of_succ_le (ih h)
  | case3 => cases h

theorem test_of_findFrom? {p : Program} {test : Token → Bool} {i j : Nat}
    (h : p.findFrom? test i = some j) : ∃ t, p[j]? = some t ∧ test t = true := by
  fun_induction findFrom? p test i with
  | case1 i inside found =>
    cases h
    exact ⟨p[j], Array.getElem?_eq_getElem inside, found⟩
  | case2 i _ _ ih => exact ih h
  | case3 => cases h

/-- The first index from `i` on that holds the kind outside a comment. A comment starts at `;`
and its newline belongs to it, so neither of the two is ever found. -/
def findLiveFrom? (p : Program) (kind : Kind) (commented : Bool) (i : Nat) : Option Nat :=
  if _h : i < p.size then
    if commented then p.findLiveFrom? kind (p[i].kind ≠ .newline) (i + 1)
    else if p[i].kind = .comment then p.findLiveFrom? kind true (i + 1)
    else if p[i].kind = kind then some i
    else p.findLiveFrom? kind false (i + 1)
  else none
termination_by p.size - i

end Program

/-- A program seen from one of its positions. The instructions look ahead by fixed offsets, and
`none` means that the program ends first. -/
structure Cursor where
  program : Program
  position : Nat
deriving Repr

namespace Cursor

def peek? (c : Cursor) (offset : Nat) : Option Token :=
  c.program[c.position + offset]?

def current? (c : Cursor) : Option Token :=
  c.program[c.position]?

def kind? (c : Cursor) (offset : Nat) : Option Kind :=
  (c.peek? offset).map Token.kind

def advance (c : Cursor) : Cursor :=
  { c with position := c.position + 1 }

def jump (c : Cursor) (position : Nat) : Cursor :=
  { c with position }

/-- The first token of the kind strictly after the cursor, comments included. -/
def find? (c : Cursor) (kind : Kind) : Option Nat :=
  c.program.findFrom? (fun t => t.kind = kind) (c.position + 1)

/-- The first token of the kind strictly after the cursor and outside comments. -/
def findLive? (c : Cursor) (kind : Kind) : Option Nat :=
  c.program.findLiveFrom? kind false (c.position + 1)

end Cursor

end HungryTape
