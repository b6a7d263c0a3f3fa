import HungryTape.Proofs.Coupling
import HungryTape.Proofs.Reading

namespace HungryTape

namespace Output

theorem toList_write (o : Output) (bytes : List UInt8) :
    (o.write bytes).written.toList = o.written.toList ++ o.accepted bytes := by
  simp [write]

/-- An output with a limit that holds all that was written, and one without a limit. -/
structure Fitting (limit : Limit) (o o' : Output) : Prop where
  limited : o.writeLimit = some limit
  unlimited : o'.writeLimit = none
  unrefused : o.flushLimit = none
  unrefused' : o'.flushLimit = none
  written : o'.written = o.written
  fits : o.written.size ≤ limit.amount

/-- An output with a limit that was too small, and one without a limit. -/
structure Truncated (limit : Limit) (o o' : Output) : Prop where
  unlimited : o'.writeLimit = none
  written : o.written.toList = o'.written.toList.take limit.amount
  more : limit.amount < o'.written.size

section

variable {limit : Limit} {o o' : Output}

theorem Fitting.flush (h : Fitting limit o o') : Fitting limit o.flush o'.flush where
  limited := (flush_writeLimit o).trans h.limited
  unlimited := (flush_writeLimit o').trans h.unlimited
  unrefused := (flush_flushLimit o).trans h.unrefused
  unrefused' := (flush_flushLimit o').trans h.unrefused'
  written := by rw [flush_written, flush_written, h.written]
  fits := by rw [flush_written]; exact h.fits

theorem Fitting.toList_eq_take (h : Fitting limit o o') :
    o.written.toList = o'.written.toList.take limit.amount := by
  rw [h.written, List.take_of_length_le h.fits]

theorem Fitting.write_within (h : Fitting limit o o') {bytes : List UInt8}
    (room : bytes.length ≤ limit.amount - o.written.size) :
    Fitting limit (o.write bytes) (o'.write bytes) := by
  have fits := h.fits
  refine { h with written := ?_, fits := ?_ }
  · simp only [write, accepted, h.limited, h.unlimited, h.written, List.take_of_length_le room]
  · rw [← Array.length_toList, toList_write, List.length_append, Array.length_toList]
    simp only [accepted, h.limited, List.length_take]
    omega

theorem Fitting.write_beyond (h : Fitting limit o o') {bytes : List UInt8}
    (beyond : limit.amount - o.written.size < bytes.length) :
    Truncated limit (o.write bytes) (o'.write bytes) := by
  have fits := h.fits
  have whole : (o'.write bytes).written.toList = o.written.toList ++ bytes := by
    simp only [toList_write, accepted, h.unlimited, h.written]
  refine ⟨h.unlimited, ?_, ?_⟩
  · rw [whole, toList_write, List.take_append, Array.length_toList,
      List.take_of_length_le (by simpa using fits)]
    simp only [accepted, h.limited]
  · rw [← Array.length_toList, whole, List.length_append, Array.length_toList]
    omega

/-- A write fits, or it fills the output and is refused. -/
theorem Fitting.write (h : Fitting limit o o') (bytes : List UInt8) :
    (o'.writeRefusal? bytes = o.writeRefusal? bytes ∧
      Fitting limit (o.write bytes) (o'.write bytes)) ∨
    o.writeRefusal? bytes = some limit.message ∧
      Truncated limit (o.write bytes) (o'.write bytes) := by
  by_cases room : bytes.length ≤ limit.amount - o.written.size
  · refine .inl ⟨?_, h.write_within room⟩
    simp only [writeRefusal?, h.limited, h.unlimited, room, ↓reduceIte]
  · refine .inr ⟨?_, h.write_beyond (Nat.lt_of_not_le room)⟩
    simp only [writeRefusal?, h.limited, room, ↓reduceIte]

theorem Truncated.flush_left (h : Truncated limit o o') : Truncated limit o.flush o' :=
  { h with written := by rw [flush_written, h.written] }

theorem Truncated.flush_right (h : Truncated limit o o') : Truncated limit o o'.flush where
  unlimited := (flush_writeLimit o').trans h.unlimited
  written := by rw [flush_written, h.written]
  more := by rw [flush_written]; exact h.more

/-- What comes later is behind the limit. -/
theorem Truncated.write_right (h : Truncated limit o o') (bytes : List UInt8) :
    Truncated limit o (o'.write bytes) := by
  have more := h.more
  refine ⟨h.unlimited, ?_, ?_⟩
  · rw [h.written, toList_write, List.take_append_of_le_length (by simpa using Nat.le_of_lt more)]
  · rw [← Array.length_toList, toList_write, List.length_append, Array.length_toList]
    omega

end

end Output

theorem Console.Becomes.truncated {limit : Limit} {o : Output} {c d : Console}
    (h : c.Becomes d) (truncated : o.Truncated limit c.output) : o.Truncated limit d.output := by
  induction h with
  | refl => exact truncated
  | note _ _ ih | take _ _ ih => exact ih
  | write _ bytes ih => exact ih.write_right bytes
  | flush _ ih => exact ih.flush_right

/-- The first machine has a limit on its output. Its excuse is a write that did not fit. -/
def Coupling.limited (limit : Limit) : Coupling where
  room := 0
  console c c' := c'.input = c.input ∧ c.output.Fitting limit c'.output
  excuse f c c' := f = .stream limit.message ∧ c.output.Truncated limit c'.output ∧
    c.input.consumed ≤ c'.input.consumed
  offTape wider _ := absurd wider (Nat.lt_irrefl 0)
  lasts excuse later := ⟨excuse.1, later.truncated excuse.2.1,
    Nat.le_trans excuse.2.2 later.consumed_le⟩
  flushed excuse := ⟨excuse.1, excuse.2.1.flush_left, excuse.2.2⟩
  note _ same := same
  write bytes same := by
    obtain ⟨input, fitting⟩ := same
    rcases fitting.write bytes with ⟨refusal, written⟩ | ⟨refused, truncated⟩
    · exact .inl ⟨refusal, input, written⟩
    · exact .inr ⟨limit.message, refused, rfl, truncated, Nat.le_of_eq (congrArg _ input.symm)⟩
  flush same := by
    refine ⟨?_, same.1, same.2.flush⟩
    rw [Output.flushRefusal?_of_unlimited same.2.unrefused,
      Output.flushRefusal?_of_unlimited same.2.unrefused']
  read _ same := by
    obtain ⟨input, fitting⟩ := same
    exact .inl ⟨by rw [input], by simp only [Console.take, input], fitting⟩

namespace Machine

/-- On an output that takes `limit.amount` bytes a run writes that many of the bytes that it writes
on an output without a limit. If these are not more, the two runs agree. If they are, the run on
the limited output ends with the refusal and has not read further than the other one. -/
theorem full_output_truncates {capacity stomach : Nat} {tape : Tape}
    (made : Tape.ofCapacity capacity stomach = .ok tape) (p : Program) (input : Input)
    (journal : Journal) (limit : Limit) :
    let r := (ofTape tape { input, journal, output := { writeLimit := some limit } }).run p
    let r' := (ofTape tape { input, journal }).run p
    r.2.output.written.toList = r'.2.output.written.toList.take limit.amount ∧
    (r'.2.output.written.size ≤ limit.amount →
      r.1 = r'.1 ∧ r.2.tape = r'.2.tape ∧ r.2.input = r'.2.input) ∧
    (limit.amount < r'.2.output.written.size →
      r.1 = .error (.stream limit.message) ∧ r.2.input.consumed ≤ r'.2.input.consumed) := by
  intro r r'
  have start : Coupled (.limited limit)
      ((ofTape tape { input, journal, output := { writeLimit := some limit } }).started p)
      ((ofTape tape { input, journal }).started p) :=
    ⟨⟨rfl, rfl, rfl, rfl, rfl, rfl, Nat.zero_le _⟩, (Tape.widen_zero tape).symm, rfl, rfl, rfl,
      rfl⟩
  cases run_alike start (Tape.ofCapacity_valid made) with
  | same result coupled =>
    obtain ⟨input, fitting⟩ := coupled.console
    have tape : r'.2.tape = r.2.tape := coupled.tape.trans (Tape.widen_zero _)
    have fits : r'.2.output.written.size ≤ limit.amount := fitting.written ▸ fitting.fits
    refine ⟨fitting.toList_eq_take, ?_, ?_⟩
    · intro _
      exact ⟨result.symm, tape.symm, input.symm⟩
    · intro more
      exact absurd fits (Nat.not_le_of_lt more)
  | excused failed excuse =>
    obtain ⟨rfl, truncated, consumed⟩ := excuse
    refine ⟨truncated.written, ?_, ?_⟩
    · intro fits
      exact absurd truncated.more (Nat.not_lt_of_le fits)
    · intro _
      exact ⟨failed, consumed⟩

/-- Prints its cell and starves. -/
def lastWords : Program :=
  #[⟨.printInt, "=", ⟨1, 1⟩⟩, ⟨.newline, "\n", ⟨1, 2⟩⟩]

/-- With room for five bytes the message about starvation is cut off, and the run fails. With room
for all of it the run starves as it does without a limit. -/
theorem full_output_truncates_lastWords :
    let input : Input := { rest := [] }
    let run (output : Output) := (ofTape ⟨#[0], 0, 0⟩ { input, output }).run lastWords
    (run {}).1 = .ok .starved ∧ (run {}).2.output.written.size = 36 ∧
    (run { writeLimit := some ⟨5, "full"⟩ }).1 = .error (.stream "full") ∧
    (run { writeLimit := some ⟨5, "full"⟩ }).2.output.written.toList = [48, 10, 84, 104, 101] ∧
    (run { writeLimit := some ⟨36, "full"⟩ }).1 = .ok .starved := by
  intro input run
  have made : Tape.ofCapacity 1 0 = .ok ⟨#[0], 0, 0⟩ := rfl
  let m := ofTape ⟨#[0], 0, 0⟩ { input }
  let k := { m with position := 1, output := { written := #[48, 10] } }
  have reached : (m.started lastWords).after lastWords 1 = some k := by decide +kernel
  have finished : k.step lastWords = .finished (.ok .starved) { k with
      tape := ⟨#[-1], 0, 0⟩
      loop := some ⟨1, -1, true⟩
      output := k.output.write farewell } := rfl
  have ran := run_of_finished reached finished
  have starved : (run {}).1 = .ok .starved := congrArg Prod.fst ran
  have bytes : (run {}).2.output.written.toList = [48, 10] ++ farewell := by
    have written := congrArg (fun r => r.2.output.written.toList) ran
    rwa [Output.flush_written, Output.toList_write] at written
  have size : (run {}).2.output.written.size = 36 := by
    rw [← Array.length_toList, bytes]
    decide +kernel
  obtain ⟨cut, -, refused⟩ := full_output_truncates made lastWords input {} ⟨5, "full"⟩
  obtain ⟨-, agree, -⟩ := full_output_truncates made lastWords input {} ⟨36, "full"⟩
  refine ⟨starved, size, (refused ?_).1, cut.trans ?_, (agree ?_).1.trans starved⟩
  · exact size ▸ (by decide : 5 < 36)
  · exact (congrArg (List.take 5) bytes).trans (by decide +kernel)
  · exact Nat.le_of_eq size

end Machine

end HungryTape
