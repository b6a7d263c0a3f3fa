import HungryTape.Proofs.Conditionals
import HungryTape.Proofs.Words

namespace HungryTape

namespace Cursor

variable {c : Cursor} {tape : Tape} {n u : Token}

theorem kind?_eq_some_iff {k : Nat} {kind : Kind} :
    c.kind? k = some kind ↔ ∃ t, c.peek? k = some t ∧ t.kind = kind :=
  Option.map_eq_some_iff

theorem argument_of_number (opened : c.kind? 1 = some .parenOpen) (here : c.peek? 2 = some n)
    (number : n.kind = .number) : c.argument tape = n.literal.map some := by
  simp only [argument, opened, here, number]

theorem argument_of_index (opened : c.kind? 1 = some .parenOpen) (here : c.peek? 2 = some u)
    (mention : u.kind = .mention) (there : c.peek? 3 = some n) (number : n.kind = .number) :
    c.argument tape = (n.cell tape).map some := by
  simp only [argument, opened, here, mention, mentioned_of_number there number]
  cases n.cell tape <;> rfl

theorem argument_of_noIndex (opened : c.kind? 1 = some .parenOpen) (here : c.peek? 2 = some u)
    (mention : u.kind = .mention) (missing : c.kind? 3 ≠ some .number) :
    c.argument tape = .error (.malformedArgument (c.peek? 3) u.location) := by
  have missing : c.mentioned tape 3 = .ok none :=
    mentioned_eq_none fun n there number => missing (kind?_eq_some_iff.mpr ⟨n, there, number⟩)
  simp only [argument, opened, here, mention, missing]

/-- Without a bracket, and without a number or a `$` behind it, there is no argument. -/
theorem argument_of_neither
    (h : c.kind? 1 ≠ some .parenOpen ∨ c.kind? 2 ≠ some .number ∧ c.kind? 2 ≠ some .mention) :
    c.argument tape = .ok none := by
  unfold argument
  split
  · rename_i t opened here
    obtain ⟨number, mention⟩ : t.kind ≠ .number ∧ t.kind ≠ .mention := by
      simpa [kind?, here] using h.resolve_left (not_not_intro opened)
    split
    · contradiction
    · contradiction
    · rfl
  · rfl

theorem map_some_ne_none (r : Except Fault Int) : r.map some ≠ .ok none := by
  intro h
  obtain ⟨v, -, absent⟩ := Fault.ok_of_map h
  cases absent

theorem argument_eq_none_iff :
    c.argument tape = .ok none ↔
      c.kind? 1 ≠ some .parenOpen ∨ c.kind? 2 ≠ some .number ∧ c.kind? 2 ≠ some .mention := by
  refine ⟨?_, argument_of_neither⟩
  intro none
  by_cases opened : c.kind? 1 = some .parenOpen
  · right
    constructor
    · intro number
      obtain ⟨n, here, number⟩ := kind?_eq_some_iff.mp number
      rw [argument_of_number opened here number] at none
      exact map_some_ne_none _ none
    · intro mention
      obtain ⟨u, here, mention⟩ := kind?_eq_some_iff.mp mention
      by_cases number : c.kind? 3 = some .number
      · obtain ⟨n, there, number⟩ := kind?_eq_some_iff.mp number
        rw [argument_of_index opened here mention there number] at none
        exact map_some_ne_none _ none
      · rw [argument_of_noIndex opened here mention number] at none
        cases none
  · exact .inl opened

/-- An argument means what its digits say. There is none if no `(` stands behind the instruction,
or no number and no `$` behind that. A number is worth what its digits say, of any length and with
any zeros before them, or it overflows. A number behind `$` names the cell at that index, or it is
out of range, and its index is reported up to the greatest signed word. Anything else behind `$`,
the end of the program included, is malformed. -/
theorem argument_by_digits {source : String} {limit : Option Nat}
    (scanned : Program.ofSource source limit = .ok c.program) (tape : Tape) :
    (c.argument tape = .ok none ↔
      c.kind? 1 ≠ some .parenOpen ∨ c.kind? 2 ≠ some .number ∧ c.kind? 2 ≠ some .mention) ∧
    (c.kind? 1 = some .parenOpen →
      (∀ n, c.peek? 2 = some n → n.kind = .number →
        Spells .number n.lexeme.toList ∧
        (Numeral.placeValue n.digits ≤ 2147483647 →
          c.argument tape = .ok (some (Numeral.placeValue n.digits))) ∧
        (2147483647 < Numeral.placeValue n.digits →
          c.argument tape = .error (.overflow (.literal n.lexeme) n.location))) ∧
      ∀ u, c.peek? 2 = some u → u.kind = .mention →
        (∀ n, c.peek? 3 = some n → n.kind = .number →
          Spells .number n.lexeme.toList ∧
          (Numeral.placeValue n.digits < tape.capacity →
            ∃ v, tape.cells[Numeral.placeValue n.digits]? = some v ∧
              c.argument tape = .ok (some v)) ∧
          (tape.capacity ≤ Numeral.placeValue n.digits →
            c.argument tape = .error (.cellOutOfRange
              (min (Numeral.placeValue n.digits) 9223372036854775807) tape.capacity
              n.location))) ∧
        (c.kind? 3 ≠ some .number →
          c.argument tape = .error (.malformedArgument (c.peek? 3) u.location))) := by
  refine ⟨argument_eq_none_iff, ?_⟩
  intro opened
  constructor
  · intro n here number
    have spelled := number ▸ Program.spells_of_scanned scanned here
    rw [argument_of_number opened here number,
      Token.literal_of_natural (Token.integer?_of_spelled spelled)]
    refine ⟨spelled, ?_, ?_⟩
    · intro fits
      rw [if_pos fits]
      rfl
    · intro unfit
      rw [if_neg (Nat.not_le.mpr unfit)]
      rfl
  · intro u here mention
    refine ⟨?_, argument_of_noIndex opened here mention⟩
    intro n there number
    have spelled := number ▸ Program.spells_of_scanned scanned there
    have read := Token.integer?_of_spelled spelled
    rw [argument_of_index opened here mention there number]
    refine ⟨spelled, ?_, ?_⟩
    · intro inside
      have found := Array.getElem?_eq_getElem inside
      exact ⟨_, found, congrArg (Except.map some) (Token.cell_of_inside read found)⟩
    · intro outside
      exact congrArg (Except.map some) (Token.cell_of_outside read outside)

/-- An index with zeros before it, a number that fits no cell and an index that fits no word. -/
def overreaching : Program :=
  #[⟨.increment, "+", ⟨1, 1⟩⟩, ⟨.parenOpen, "(", ⟨1, 2⟩⟩, ⟨.mention, "$", ⟨1, 3⟩⟩,
    ⟨.number, "002", ⟨1, 4⟩⟩, ⟨.parenClose, ")", ⟨1, 7⟩⟩, ⟨.decrement, "-", ⟨1, 8⟩⟩,
    ⟨.parenOpen, "(", ⟨1, 9⟩⟩, ⟨.number, "2147483648", ⟨1, 10⟩⟩, ⟨.multiply, "*", ⟨1, 20⟩⟩,
    ⟨.parenOpen, "(", ⟨1, 21⟩⟩, ⟨.mention, "$", ⟨1, 22⟩⟩,
    ⟨.number, "99999999999999999999", ⟨1, 23⟩⟩]

theorem argument_by_digits_overreaching :
    Program.ofSource "+($002)-(2147483648*($99999999999999999999" none = .ok overreaching ∧
    (⟨overreaching, 0⟩ : Cursor).argument ⟨#[0, 0, 9], 0, 0⟩ = .ok (some 9) ∧
    (⟨overreaching, 5⟩ : Cursor).argument ⟨#[0, 0, 9], 0, 0⟩ =
      .error (.overflow (.literal "2147483648") ⟨1, 10⟩) ∧
    (⟨overreaching, 8⟩ : Cursor).argument ⟨#[0, 0, 9], 0, 0⟩ =
      .error (.cellOutOfRange 9223372036854775807 3 ⟨1, 23⟩) := by
  have scanned : Program.ofSource "+($002)-(2147483648*($99999999999999999999" none =
      .ok overreaching :=
    congrArg Except.ok (by decide +kernel)
  refine ⟨scanned, ?_, ?_, ?_⟩
  · obtain ⟨-, arguments⟩ := argument_by_digits (c := ⟨overreaching, 0⟩) scanned ⟨#[0, 0, 9], 0, 0⟩
    obtain ⟨-, inside, -⟩ := ((arguments rfl).2 _ rfl rfl).1 _ rfl rfl
    obtain ⟨v, found, argument⟩ := inside (by decide +kernel)
    have found : some 9 = some v := found
    cases found
    exact argument
  · obtain ⟨-, arguments⟩ := argument_by_digits (c := ⟨overreaching, 5⟩) scanned ⟨#[0, 0, 9], 0, 0⟩
    obtain ⟨-, -, overflow⟩ := (arguments rfl).1 _ rfl rfl
    exact overflow (by decide +kernel)
  · obtain ⟨-, arguments⟩ := argument_by_digits (c := ⟨overreaching, 8⟩) scanned ⟨#[0, 0, 9], 0, 0⟩
    obtain ⟨-, -, outside⟩ := ((arguments rfl).2 _ rfl rfl).1 _ rfl rfl
    exact outside (by decide +kernel)

end Cursor

end HungryTape
