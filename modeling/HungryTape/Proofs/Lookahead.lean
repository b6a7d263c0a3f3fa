import HungryTape.Proofs.Coupling
import HungryTape.Proofs.Reading

/-!
Of the bytes that a program has not read only the next one can matter, for the program may have
looked at it. If the input is cut off behind that byte and fails there, the program never comes to
the failure, so it runs on the cut input as it does on every input that starts with the same bytes.
-/

namespace HungryTape

/-- The first machine has only the first `total` bytes of the input. Its excuse is that it has read
all of them. -/
def Coupling.cutOff (total : Nat) : Coupling where
  room := 0
  console c c' := c.input.Cuts c'.input ∧ c.input.consumed + c.input.rest.length = total ∧
    c'.output = c.output
  excuse _ c c' := total ≤ c.input.consumed ∧ total ≤ c'.input.consumed
  offTape wider _ := absurd wider (Nat.lt_irrefl 0)
  lasts excuse later := ⟨excuse.1, Nat.le_trans excuse.2 later.consumed_le⟩
  flushed excuse := excuse
  note _ same := same
  write bytes same := by
    obtain ⟨cuts, all, output⟩ := same
    exact .inl ⟨by rw [output], cuts, all, by simp only [Console.write, output]⟩
  flush same := by
    obtain ⟨cuts, all, output⟩ := same
    exact ⟨by rw [output], cuts, all, by simp only [Console.flush, output]⟩
  read {c _ _} reads same := by
    obtain ⟨cuts, all, output⟩ := same
    have total := Input.total_reader reads c.input
    rcases Input.reader_cut reads cuts with ⟨reading, cuts⟩ | ⟨message, failed, empty, further⟩
    · exact .inl ⟨reading, cuts, total.trans all, output⟩
    · rw [empty, List.length_nil, Nat.add_zero, all] at total
      exact .inr ⟨message, failed, Nat.le_of_eq total.symm, total ▸ further⟩

namespace Machine

variable {tape : Tape} {p : Program} {output : Output} {journal : Journal}

/-- A run that does not come to the end of `head` does the same on `head` alone, whether it is the
one run or the other that is known not to come that far. -/
theorem run_cutOff (valid : tape.Valid) {head bytes : List UInt8} (initial : head <+: bytes)
    (failure : Option String) :
    let r := (ofTape tape { input := { rest := bytes, failure }, output, journal }).run p
    let cut := (ofTape tape
      { input := { rest := head, failure := some "" }, output, journal }).run p
    r.2.input.consumed < head.length ∨ cut.2.input.consumed < head.length →
      r.1 = cut.1 ∧ r.2.tape = cut.2.tape ∧ r.2.output = cut.2.output ∧
        r.2.input.consumed = cut.2.input.consumed := by
  intro r cut inside
  have start : Coupled (.cutOff head.length)
      ((ofTape tape { input := { rest := head, failure := some "" }, output, journal }).started p)
      ((ofTape tape { input := { rest := bytes, failure }, output, journal }).started p) :=
    ⟨⟨⟨rfl, initial, "", rfl⟩, Nat.zero_add _, rfl⟩, (Tape.widen_zero tape).symm, rfl, rfl, rfl,
      rfl⟩
  cases run_alike start valid with
  | same result coupled =>
    obtain ⟨cuts, -, output⟩ := coupled.console
    exact ⟨result, coupled.tape.trans (Tape.widen_zero _), output, cuts.consumed⟩
  | excused failed excuse =>
    obtain ⟨read, read'⟩ := excuse
    rcases inside with inside | inside
    · exact absurd read' (Nat.not_le_of_lt inside)
    · exact absurd read (Nat.not_le_of_lt inside)

/-- If a run has not read its input to the end, every input with the same bytes up to the next one
leads to the same result, the same tape, the same output with the same flushes, and as many bytes
read. -/
theorem bytes_beyond_next_irrelevant {capacity stomach : Nat}
    (made : Tape.ofCapacity capacity stomach = .ok tape) (p : Program) (output : Output)
    (journal : Journal) (i j : List UInt8) (failure failure' : Option String) :
    let r := (ofTape tape { input := { rest := i, failure }, output, journal }).run p
    let r' := (ofTape tape
      { input := { rest := j, failure := failure' }, output, journal }).run p
    let c := r.2.input.consumed
    c < i.length → j.take (c + 1) = i.take (c + 1) →
      r'.1 = r.1 ∧ r'.2.tape = r.2.tape ∧ r'.2.output = r.2.output ∧
        r'.2.input.consumed = c := by
  intro r r' c inside agree
  have valid := Tape.ofCapacity_valid made
  have initial : i.take (c + 1) <+: i := i.take_prefix (c + 1)
  have initial' : i.take (c + 1) <+: j := agree ▸ j.take_prefix (c + 1)
  have short : c < (i.take (c + 1)).length := by
    rw [List.length_take_of_le inside]
    exact c.lt_succ_self
  -- Neither run knows the other's input; both are compared with the run on what they share.
  obtain ⟨result, tape, output, consumed⟩ := run_cutOff valid initial failure (.inl short)
  have short' := Nat.lt_of_le_of_lt (Nat.le_of_eq consumed.symm) short
  obtain ⟨result', tape', output', consumed'⟩ := run_cutOff valid initial' failure' (.inr short')
  exact ⟨result'.trans result.symm, tape'.trans tape.symm, output'.trans output.symm,
    consumed'.trans consumed.symm⟩

/-- Prints the number that it reads. -/
def echo : Program :=
  #[⟨.readInt, "&", ⟨1, 1⟩⟩, ⟨.printInt, "=", ⟨1, 2⟩⟩]

/-- The number ends at the blank, so it is all the same what comes after the blank, even if that is
a failure. -/
theorem bytes_beyond_next_irrelevant_echo :
    let run (input : Input) := (ofTape ⟨#[0], 0, 0⟩ { input }).run echo
    let r := run { rest := [49, 50, 32, 55] }
    let r' := run { rest := [49, 50, 32], failure := some "broken" }
    r.1 = .ok .completed ∧ r.2.input.consumed = 2 ∧ r.2.output.written = #[49, 50, 10] ∧
      r'.1 = r.1 ∧ r'.2.output = r.2.output ∧ r'.2.input.consumed = 2 := by
  intro run r r'
  have made : Tape.ofCapacity 1 0 = .ok ⟨#[0], 0, 0⟩ := rfl
  let m := ofTape ⟨#[0], 0, 0⟩ { input := { rest := [49, 50, 32, 55] } }
  have reached : (m.started echo).after echo 2 = some { m with
      tape := ⟨#[12], 0, 0⟩
      position := 2
      input := { rest := [32, 55], consumed := 2 }
      output := { written := #[49, 50, 10], flushes := #[0] } } := by
    decide +kernel
  have ran : r = _ := run_of_finished reached rfl
  have consumed : r.2.input.consumed = 2 := congrArg (fun r => r.2.input.consumed) ran
  obtain ⟨result, -, output, consumed'⟩ :=
    bytes_beyond_next_irrelevant made echo {} {} [49, 50, 32, 55] [49, 50, 32] none
      (some "broken") (consumed ▸ (by decide : 2 < 4)) (by rw [consumed]; rfl)
  exact ⟨congrArg Prod.fst ran, consumed, congrArg (fun r => r.2.output.written) ran, result,
    output, consumed'.trans consumed⟩

end Machine

end HungryTape
