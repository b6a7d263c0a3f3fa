namespace HungryTape.Numeral

/-- The digits of `n` in a base, most significant first. Zero has the one digit `0`. -/
def digits (base n : Nat) : List Nat :=
  if _h : 2 ≤ base ∧ base ≤ n then digits base (n / base) ++ [n % base] else [n]
termination_by n
decreasing_by exact Nat.div_lt_self (by omega) (by omega)

def value (base : Nat) (ds : List Nat) : Nat :=
  ds.foldl (fun n d => base * n + d) 0

theorem value_append (base : Nat) (ds : List Nat) (d : Nat) :
    value base (ds ++ [d]) = base * value base ds + d := by
  simp [value]

theorem value_digits (base n : Nat) : value base (digits base n) = n := by
  induction n using Nat.strongRecOn with
  | ind n ih =>
    rw [digits]
    split
    · rename_i h
      rw [value_append, ih (n / base) (Nat.div_lt_self (by omega) (by omega))]
      exact Nat.div_add_mod n base
    · simp [value]

def digitChar (d : Nat) : Char :=
  Char.ofNat (if d < 10 then 48 + d else 87 + d)

def charDigit (c : Char) : Nat :=
  c.toNat - 48

def decimal (n : Nat) : String :=
  String.ofList ((digits 10 n).map digitChar)

def hexadecimal (n : Nat) : String :=
  String.ofList ((digits 16 n).map digitChar)

/-- A minus sign for negative numbers and no sign for the others. -/
def signed (v : Int) : String :=
  if v < 0 then "-" ++ decimal v.natAbs else decimal v.natAbs

/-- The number that decimal digit characters spell; leading zeros are allowed. -/
def ofDecimal (cs : List Char) : Nat :=
  value 10 (cs.map charDigit)

/-- Nothing but digit characters is read, and at least one of them. -/
def ofDecimal? (cs : List Char) : Option Nat :=
  if cs ≠ [] ∧ cs.all Char.isDigit then some (ofDecimal cs) else none

/-- Digits with an optional plus sign before them. -/
def unsigned? : List Char → Option Nat
  | '+' :: digits => ofDecimal? digits
  | digits => ofDecimal? digits

/-- Digits with an optional sign before them. -/
def integer? (text : String) : Option Int :=
  match text.toList with
  | '-' :: digits => (ofDecimal? digits).map fun n : Nat => -(n : Int)
  | chars => (unsigned? chars).map fun n : Nat => (n : Int)

end HungryTape.Numeral
