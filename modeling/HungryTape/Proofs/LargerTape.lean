import HungryTape.Proofs.Coupling

namespace HungryTape

theorem Tape.widen_replicate {small large stomach : Nat} (larger : small ≤ large) :
    (⟨Array.replicate small 0, 0, stomach⟩ : Tape).widen (large - small) =
      ⟨Array.replicate large 0, 0, stomach⟩ := by
  simp [widen, larger]

namespace Machine

/-- If the run on the smaller tape does not end with a cell out of range, the run on the larger one
comes to the same outcome or fault, with the same output, rest of the input, current index and
comparison, and its cells are those of the smaller tape followed by zeros. -/
theorem larger_tape_only_adds_room (p : Program) (console : Console) {small large stomach : Nat}
    (inside : stomach < small) (larger : small ≤ large) :
    ∃ tape tape', Tape.ofCapacity small stomach = .ok tape ∧
      Tape.ofCapacity large stomach = .ok tape' ∧
      let r := (ofTape tape console).run p
      let r' := (ofTape tape' console).run p
      (∀ index capacity location, r.1 ≠ .error (.cellOutOfRange index capacity location)) →
        r'.1 = r.1 ∧ r'.2.output = r.2.output ∧ r'.2.input = r.2.input ∧
        r'.2.tape.current = r.2.tape.current ∧ r'.2.comparison = r.2.comparison ∧
        r'.2.tape.cells = r.2.tape.cells ++ Array.replicate (large - small) 0 := by
  have made := Tape.ofCapacity_eq inside
  have made' := Tape.ofCapacity_eq (Nat.lt_of_lt_of_le inside larger)
  refine ⟨_, _, made, made', ?_⟩
  intro r r' onTape
  have coupled : Coupled (.roomier (large - small))
      ((ofTape ⟨Array.replicate small 0, 0, stomach⟩ console).started p)
      ((ofTape ⟨Array.replicate large 0, 0, stomach⟩ console).started p) :=
    ⟨⟨rfl, rfl⟩, (Tape.widen_replicate larger).symm, rfl, rfl, rfl, rfl⟩
  cases run_alike coupled (Tape.ofCapacity_valid made) with
  | same result coupled =>
    obtain ⟨input, output⟩ := coupled.console
    have tape : r'.2.tape = r.2.tape.widen (large - small) := coupled.tape
    refine ⟨result, output, input, ?_, coupled.comparison, ?_⟩
    · rw [tape]
      rfl
    · rw [tape]
      rfl
  | excused failed excuse =>
    obtain ⟨-, index, capacity, location, rfl⟩ := excuse
    exact absurd failed (onTape index capacity location)

/-- Prints what it finds at the far end of a tape of two cells. -/
def farEnd : Program :=
  #[⟨.moveRight, ">", ⟨1, 1⟩⟩, ⟨.increment, "+", ⟨1, 2⟩⟩, ⟨.parenOpen, "(", ⟨1, 3⟩⟩,
    ⟨.number, "7", ⟨1, 4⟩⟩, ⟨.moveLeft, "<", ⟨1, 5⟩⟩, ⟨.increment, "+", ⟨1, 6⟩⟩,
    ⟨.parenOpen, "(", ⟨1, 7⟩⟩, ⟨.mention, "$", ⟨1, 8⟩⟩, ⟨.number, "1", ⟨1, 9⟩⟩,
    ⟨.printInt, "=", ⟨1, 10⟩⟩]

theorem larger_tape_only_adds_room_farEnd :
    let r := (ofTape ⟨#[0, 0], 0, 0⟩ { input := { rest := [] } }).run farEnd
    let r' := (ofTape ⟨#[0, 0, 0, 0, 0], 0, 0⟩ { input := { rest := [] } }).run farEnd
    r.1 = .ok .completed ∧ r.2.tape.cells = #[7, 7] ∧ r.2.output.written = #[55, 10] ∧
      r'.1 = r.1 ∧ r'.2.output = r.2.output ∧ r'.2.tape.cells = r.2.tape.cells ++ #[0, 0, 0] := by
  let m := ofTape ⟨#[0, 0], 0, 0⟩ { input := { rest := [] } }
  have reached : (m.started farEnd).after farEnd 10 = some { m with
      position := 10
      tape := ⟨#[7, 7], 0, 0⟩
      output := { written := #[55, 10] } } := by
    decide +kernel
  have ran := run_of_finished reached rfl
  obtain ⟨tape, tape', made, made', alike⟩ :=
    larger_tape_only_adds_room farEnd { input := { rest := [] } } (by decide : 0 < 2)
      (by decide : 2 ≤ 5)
  cases made
  cases made'
  obtain ⟨result, output, -, -, -, cells⟩ := alike (by
    intro index capacity location failed
    cases (congrArg Prod.fst ran).symm.trans failed)
  exact ⟨congrArg Prod.fst ran, congrArg (fun r => r.2.tape.cells) ran,
    congrArg (fun r => r.2.output.written) ran, result, output, cells⟩

end Machine

end HungryTape
