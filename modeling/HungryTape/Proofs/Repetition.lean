import HungryTape.Proofs.Arguments
import HungryTape.Proofs.Arithmetic
import HungryTape.Proofs.Ranges

/-!
One operation on a large amount stands against many small ones that are checked each by itself. They
agree since the small ones all go the same way, so that the last of them is the first to leave the
range.
-/

namespace HungryTape

namespace Tape

/-- The tape with so much more in the current cell, if the cell can hold that. -/
def raise (t : Tape) (k : Int) : Option Tape :=
  if Cell.Fits (t.value + k) then some (t.store (t.value + k)) else none

/-- The tape from so many cells further on, if there is a cell. -/
def shift (t : Tape) (k : Int) : Option Tape :=
  if 0 ≤ t.current + k ∧ t.current + k < t.cells.size then some (t.seek (t.current + k).toNat)
  else none

section

variable {t u : Tape} {k l : Int}

theorem store_store (t : Tape) (v w : Int) : (t.store v).store w = t.store w := by
  simp [store]

/-- Two steps the same way are one, since the first of them cannot leave the range if both
together do not. -/
theorem Valid.raise_add (valid : t.Valid) (way : 0 ≤ k ∧ 0 ≤ l ∨ k ≤ 0 ∧ l ≤ 0) :
    t.raise (k + l) = (t.raise k).bind fun u => u.raise l := by
  by_cases first : Cell.Fits (t.value + k)
  · have raised : t.raise k = some (t.store (t.value + k)) := if_pos first
    rw [raised, Option.bind_some, raise, raise, valid.value_store, store_store, Int.add_assoc]
  · have stuck : ¬ Cell.Fits (t.value + (k + l)) := by
      have fits := valid.value_fits
      unfold Cell.Fits Cell.least Cell.greatest at *
      omega
    have blocked : t.raise k = none := if_neg first
    rw [blocked, Option.bind_none, raise, if_neg stuck]

theorem Valid.shift_add (valid : t.Valid) (way : 0 ≤ k ∧ 0 ≤ l ∨ k ≤ 0 ∧ l ≤ 0) :
    t.shift (k + l) = (t.shift k).bind fun u => u.shift l := by
  have inside := valid.current_lt
  by_cases first : 0 ≤ t.current + k ∧ t.current + k < t.cells.size
  · have shifted : t.shift k = some (t.seek (t.current + k).toNat) := if_pos first
    have sum : ((t.current + k).toNat : Int) + l = t.current + (k + l) := by omega
    rw [shifted, Option.bind_some, shift, shift]
    simp only [seek, sum]
  · have stuck : ¬ (0 ≤ t.current + (k + l) ∧ t.current + (k + l) < t.cells.size) := by omega
    have blocked : t.shift k = none := if_neg first
    rw [blocked, Option.bind_none, shift, if_neg stuck]

end

end Tape

namespace Kind

/-- What the instruction makes of the tape when it is to count to `n`, if it can. -/
def count (kind : Kind) (n : Int) (t : Tape) : Option Tape :=
  match kind with
  | .increment => t.raise n
  | .decrement => t.raise (-n)
  | .moveLeft => t.shift (-n)
  | .moveRight => t.shift n
  | _ => some t

/-- The fault of an instruction that cannot count so far. -/
inductive FailsBy : Kind → Fault → Prop where
  | increment (cause : Overflow) (l : Location) : FailsBy .increment (.overflow cause l)
  | decrement (cause : Overflow) (l : Location) : FailsBy .decrement (.overflow cause l)
  | moveLeft (i : Int) (n : Nat) (l : Location) : FailsBy .moveLeft (.cellOutOfRange i n l)
  | moveRight (i : Int) (n : Nat) (l : Location) : FailsBy .moveRight (.cellOutOfRange i n l)

/-- The stomach itself is current and is to give more than it has. -/
def Overdraws (kind : Kind) (n : Int) (t : Tape) : Prop :=
  kind = .decrement ∧ t.current = t.stomach ∧ t.value < n

section

variable {kind : Kind} {t u : Tape} {a b n : Int}

theorem count_add (valid : t.Valid) (first : 0 ≤ a) (second : 0 ≤ b) :
    kind.count (a + b) t = (kind.count a t).bind (kind.count b) := by
  cases kind
  case increment => exact valid.raise_add (by omega)
  case decrement =>
    simp only [count, Int.neg_add]
    exact valid.raise_add (by omega)
  case moveLeft =>
    simp only [count, Int.neg_add]
    exact valid.shift_add (by omega)
  case moveRight => exact valid.shift_add (by omega)
  all_goals rfl

theorem overdraws_add (valid : t.Valid) (h : kind.count a t = some u) :
    kind.Overdraws (a + n) t ↔ kind.Overdraws n u := by
  unfold Overdraws
  by_cases decrement : kind = .decrement
  · subst decrement
    simp only [count, Tape.raise] at h
    split at h
    · cases h
      rw [valid.value_store]
      simp only [Tape.store, true_and]
      omega
    · cases h
  · simp only [decrement, false_and]

end

end Kind

namespace Program

/-- From `j` on the instruction stands `n` times, each time without an argument. -/
def Repeats (p : Program) (kind : Kind) (n j : Nat) : Prop :=
  ∀ k, k < n → ∃ t, p[j + k]? = some t ∧ t.kind = kind ∧
    ∀ tape, (⟨p, j + k⟩ : Cursor).argument tape = .ok none

theorem Repeats.tail {p : Program} {kind : Kind} {n j : Nat} (h : p.Repeats kind (n + 1) j) :
    p.Repeats kind n (j + 1) := by
  intro k before
  obtain ⟨t, here, same, alone⟩ := h (k + 1) (by omega)
  rw [← Nat.add_assoc, Nat.add_right_comm] at here alone
  exact ⟨t, here, same, alone⟩

end Program

namespace Machine

/-- How it ends when an instruction is to count to `n`, wherever that is written: the machine is
behind the text, or it was left with a fault, or it starves. -/
inductive Counts (kind : Kind) (n : Int) (m : Machine) (stop : Nat) (left : Machine) :
    Progress → Prop where
  | through {u : Tape} (counted : kind.count n m.tape = some u)
      (enough : ¬ kind.Overdraws n m.tape) :
      Counts kind n m stop left (.running { m with tape := u, position := stop })
  | failed {f : Fault} (blocked : kind.count n m.tape = none) (fails : kind.FailsBy f) :
      Counts kind n m stop left (.finished (.error f) left)
  | starved {a : Machine} {l : Location} (overdraws : kind.Overdraws n m.tape)
      (starving : a.tape.stomachValue < 0) (console : a.toConsole = m.toConsole) :
      Counts kind n m stop left (a.starve l)

section

variable {p q : Program} {t : Token} {m : Machine} {kind : Kind} {n j : Nat}

/-- Counting by one and then to `n`. -/
theorem Counts.cons {n : Int} {u : Tape} {i stop : Nat} {left : Machine} {r : Progress}
    (valid : m.tape.Valid) (positive : 0 ≤ n) (first : kind.count 1 m.tape = some u)
    (rest : Counts kind n { m with tape := u, position := i } stop left r) :
    Counts kind (1 + n) m stop left r := by
  have both : kind.count (1 + n) m.tape = kind.count n u := by
    rw [Kind.count_add valid (by decide) positive, first, Option.bind_some]
  have overdraws : kind.Overdraws (1 + n) m.tape ↔ kind.Overdraws n u :=
    Kind.overdraws_add valid first
  cases rest with
  | through counted enough => exact .through (both.trans counted) (mt overdraws.mp enough)
  | failed blocked fails => exact .failed (both.trans blocked) fails
  | starved overdrawn starving console =>
    exact .starved (overdraws.mpr overdrawn) starving console

end

end Machine

end HungryTape
