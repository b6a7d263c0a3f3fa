import HungryTape.Proofs.Consoles
import HungryTape.Proofs.FoodDebt

/-!
Starvation is reported exactly when it happens. A `]` that goes back, a `?` and a `:` are not
followed by a look at the stomach, but a debt that they leave is always found before the program
ends.
-/

namespace HungryTape

namespace Machine

/-- The body of a loop that made a debt is not at its end. -/
theorem Ledger.fed_of_past {p : Program} {m : Machine} (ledger : m.Ledger p)
    (past : p[m.position]? = none) : 0 ≤ m.tape.stomachValue := by
  apply Int.not_lt.mp
  intro negative
  obtain ⟨l, debt⟩ := ledger.debt negative
  exact debt.meets.inside debt.only past

theorem Ledger.finished {p : Program} {m last : Machine} {outcome : Outcome}
    (ledger : m.Ledger p) (h : Finished p m (.ok outcome) last) :
    (outcome = .starved ↔ last.tape.stomachValue < 0) ∧
    (outcome = .starved → farewell <:+ last.output.written.toList) := by
  cases h with
  | completed past =>
    have fed := ledger.fed_of_past past
    refine ⟨⟨by simp, ?_⟩, by simp⟩
    intro negative
    omega
  | @terminated t m' taken dispatched =>
    have moved := dispatch_moved dispatched
    generalize kind : t.kind = k at moved
    cases moved with
    | halted =>
      have fed := ledger.fed taken (by simp [kind]) (by rw [kind]; rfl)
      refine ⟨⟨by simp, ?_⟩, by simp⟩
      intro negative
      exact absurd fed (Int.not_le.mpr negative)
  | starved taken dispatched starving room =>
    refine ⟨⟨fun _ => starving, by simp⟩, ?_⟩
    intro _
    exact ⟨_, (Output.written_write room).symm⟩

/-- A run that comes to an outcome starved if and only if the stomach is negative at its end, and
then the message about it is the last thing that was written. -/
theorem starved_iff_stomach_negative {capacity stomach : Nat} {tape : Tape}
    (made : Tape.ofCapacity capacity stomach = .ok tape) (console : Console) (p : Program)
    {outcome : Outcome} {final : Machine}
    (ran : (ofTape tape console).run p = (.ok outcome, final)) :
    (outcome = .starved ↔ final.tape.stomachValue < 0) ∧
    (outcome = .completed ∨ outcome = .terminated → 0 ≤ final.tape.stomachValue) ∧
    (outcome = .starved →
      Text.utf8 (starvationMessage ++ "\n") <:+ final.output.written.toList) := by
  obtain ⟨n, k, last, reached, finished, rfl⟩ := run_ok ran
  have ledger : k.Ledger p := after_ledger made reached
  obtain ⟨starved, message⟩ := ledger.finished finished
  refine ⟨starved, ?_, ?_⟩
  · intro ended
    apply Int.not_lt.mp
    intro negative
    have := starved.mpr negative
    simp [this] at ended
  · intro ended
    rw [Output.flush_written]
    exact message ended

/-- `borrowing` completes with its debt paid back, and a lone newline starves at once. -/
theorem starved_iff_stomach_negative_borrowing :
    (∃ final, (ofTape ⟨#[0], 0, 0⟩ { input := { rest := [] } }).run borrowing =
      (.ok .completed, final) ∧ 0 ≤ final.tape.stomachValue) ∧
    ∃ final, (ofTape ⟨#[0], 0, 0⟩ { input := { rest := [] } }).run
        #[⟨.newline, "\n", ⟨1, 1⟩⟩] = (.ok .starved, final) ∧
      final.tape.stomachValue < 0 ∧
      Text.utf8 (starvationMessage ++ "\n") <:+ final.output.written.toList := by
  have made : Tape.ofCapacity 1 0 = .ok ⟨#[0], 0, 0⟩ := rfl
  let m := ofTape ⟨#[0], 0, 0⟩ { input := { rest := [] } }
  constructor
  · have reached : (m.started borrowing).after borrowing 20 = some { m with position := 12 } := by
      decide
    have ran := run_of_finished reached rfl
    exact ⟨_, ran, (starved_iff_stomach_negative made _ _ ran).2.1 (.inl rfl)⟩
  · let line : Program := #[⟨.newline, "\n", ⟨1, 1⟩⟩]
    have reached : (m.started line).after line 0 = some m := rfl
    have ran := run_of_finished reached rfl
    obtain ⟨starved, -, message⟩ := starved_iff_stomach_negative made _ _ ran
    exact ⟨_, ran, starved.mp rfl, message rfl⟩

end Machine

end HungryTape
