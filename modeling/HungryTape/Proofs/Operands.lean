import HungryTape.Machine.Operand

namespace HungryTape

theorem Tape.get_eq_ok_iff {tape : Tape} {index : Nat} {v : Int} :
    tape.get index = .ok v ↔ tape.cells[index]? = some v := by
  unfold get
  split
  · rename_i found
    simp [found]
  · rename_i missing
    simp [missing]

namespace Token

variable {t : Token} {tape : Tape} {v : Int} {f : Fault}

theorem literal_eq_ok_iff : t.literal = .ok v ↔ t.integer? = some v ∧ Cell.Fits v := by
  have kept : t.integer?.filter (Cell.Fits ·) = some v ↔ t.integer? = some v ∧ Cell.Fits v := by
    simp [Option.filter_eq_some_iff]
  rw [← kept, literal]
  split
  · rename_i w read
    simp [read]
  · rename_i unread
    simp [unread]

theorem literal_eq_error_iff :
    t.literal = .error f ↔ (∀ v, t.integer? = some v → ¬ Cell.Fits v) ∧
      f = .overflow (.literal t.lexeme) t.location := by
  have dropped : t.integer?.filter (Cell.Fits ·) = none ↔
      ∀ v, t.integer? = some v → ¬ Cell.Fits v := by
    simp [Option.filter_eq_none_iff]
  rw [← dropped, literal]
  split
  · rename_i w read
    simp [read]
  · rename_i unread
    simp [unread, eq_comm]

theorem reported_of_word (read : t.integer? = some v)
    (word : -9223372036854775808 ≤ v ∧ v ≤ 9223372036854775807) : t.reported = v := by
  simp [reported, read, Option.filter_some, word]

theorem reported_of_no_word (far : ∀ v, t.integer? = some v →
      ¬ (-9223372036854775808 ≤ v ∧ v ≤ 9223372036854775807)) :
    t.reported = 9223372036854775807 := by
  have dropped : t.integer?.filter
      (fun n => -9223372036854775808 ≤ n ∧ n ≤ 9223372036854775807) = none := by
    rw [Option.filter_eq_none_iff]
    intro v read
    simpa using far v read
  rw [reported, dropped, Option.getD_none]

/-- The tape may be of any size, so the index need not be one that can be reported. -/
theorem cell_eq_ok_iff :
    t.cell tape = .ok v ↔
      ∃ index : Nat, t.integer? = some (index : Int) ∧ tape.cells[index]? = some v := by
  constructor
  · intro h
    unfold cell at h
    dsimp only at h
    split at h
    · rename_i index read
      split at h
      · rename_i found
        cases h
        exact ⟨index, read, Tape.get_eq_ok_iff.mp found⟩
      · cases h
    · cases h
  · rintro ⟨index, read, found⟩
    have read : t.integer? = some (.ofNat index) := read
    simp only [cell, read, Tape.get_eq_ok_iff.mpr found]

theorem cell_error (h : t.cell tape = .error f) :
    f = .cellOutOfRange t.reported tape.capacity t.location := by
  unfold cell at h
  dsimp only at h
  split at h
  · split at h
    · cases h
    · cases h
      rfl
  · cases h
    rfl

theorem cell_eq_error_iff :
    t.cell tape = .error f ↔
      (∀ index : Nat, t.integer? = some (index : Int) → tape.capacity ≤ index) ∧
        f = .cellOutOfRange t.reported tape.capacity t.location := by
  constructor
  · intro h
    refine ⟨?_, cell_error h⟩
    intro index read
    rcases Nat.lt_or_ge index tape.capacity with inside | outside
    · have found : t.cell tape = .ok tape.cells[index] :=
        cell_eq_ok_iff.mpr ⟨index, read, Array.getElem?_eq_getElem inside⟩
      cases h.symm.trans found
    · exact outside
  · rintro ⟨outside, rfl⟩
    cases looked : t.cell tape with
    | ok v =>
      obtain ⟨index, read, found⟩ := cell_eq_ok_iff.mp looked
      have missing := Array.getElem?_eq_none_iff.mpr (outside index read)
      cases missing.symm.trans found
    | error g => rw [cell_error looked]

-- The lexemes of digits alone, which are all that a source has
section

variable {n : Nat} (read : t.integer? = some (n : Int))
include read

theorem literal_of_natural :
    t.literal = if n ≤ 2147483647 then .ok (n : Int)
      else .error (.overflow (.literal t.lexeme) t.location) := by
  have range : Cell.Fits n ↔ n ≤ 2147483647 := by
    unfold Cell.Fits Cell.least Cell.greatest
    omega
  split
  · rename_i small
    exact literal_eq_ok_iff.mpr ⟨read, range.mpr small⟩
  · rename_i large
    refine literal_eq_error_iff.mpr ⟨?_, rfl⟩
    intro v other
    cases read.symm.trans other
    exact mt range.mp large

theorem reported_of_natural : t.reported = min (n : Int) 9223372036854775807 := by
  rcases Nat.lt_or_ge 9223372036854775807 n with far | near
  · have noWord (v : Int) (other : t.integer? = some v) :
        ¬ (-9223372036854775808 ≤ v ∧ v ≤ 9223372036854775807) := by
      cases read.symm.trans other
      omega
    rw [reported_of_no_word noWord]
    omega
  · rw [reported_of_word read (by omega)]
    omega

theorem cell_of_inside (inside : tape.cells[n]? = some v) : t.cell tape = .ok v :=
  cell_eq_ok_iff.mpr ⟨n, read, inside⟩

theorem cell_of_outside (outside : tape.capacity ≤ n) :
    t.cell tape =
      .error (.cellOutOfRange (min n 9223372036854775807) tape.capacity t.location) := by
  refine cell_eq_error_iff.mpr ⟨?_, by rw [reported_of_natural read]⟩
  intro index other
  cases read.symm.trans other
  exact outside

end

end Token

end HungryTape
