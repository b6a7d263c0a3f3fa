import HungryTape.Proofs.Consoles
import HungryTape.Proofs.Faults
import HungryTape.Proofs.Frame
import HungryTape.Proofs.Operands
import HungryTape.Proofs.TapeBounds

namespace HungryTape

theorem Token.fits_of_literal {t : Token} {v : Int} (h : t.literal = .ok v) : Cell.Fits v :=
  (literal_eq_ok_iff.mp h).2

theorem Token.fits_of_cell {t : Token} {tape : Tape} {v : Int} (valid : tape.Valid)
    (h : t.cell tape = .ok v) : Cell.Fits v := by
  obtain ⟨index, -, found⟩ := cell_eq_ok_iff.mp h
  exact valid.fits v (Array.mem_of_getElem? found)

namespace Cursor

variable {c : Cursor} {tape : Tape} {v : Int}

theorem fits_of_mentioned (valid : tape.Valid) {offset : Nat}
    (h : c.mentioned tape offset = .ok (some v)) : Cell.Fits v := by
  unfold mentioned at h
  split at h
  · split at h
    · obtain ⟨w, found, same⟩ := Fault.ok_of_map h
      cases same
      exact Token.fits_of_cell valid found
    · cases h
  · cases h

theorem fits_of_argument (valid : tape.Valid) (h : c.argument tape = .ok (some v)) :
    Cell.Fits v := by
  unfold argument at h
  split at h
  · split at h
    · obtain ⟨w, found, same⟩ := Fault.ok_of_map h
      cases same
      exact Token.fits_of_literal found
    · split at h
      · cases h
      · exact fits_of_mentioned valid h
    · cases h
  · cases h

theorem fits_of_argumentOr (valid : tape.Valid) (h : c.argumentOr tape 1 = .ok v) :
    Cell.Fits v := by
  obtain ⟨argument, found, rfl⟩ := Fault.ok_of_map h
  cases argument with
  | none => decide
  | some w => exact fits_of_argument valid found

end Cursor

namespace Machine

/-- The count of the loop is a cell value. -/
def CountFits (m : Machine) : Prop :=
  ∀ l, m.loop = some l → Cell.Fits l.remaining

theorem CountFits.of_none {m : Machine} (h : m.loop = none) : m.CountFits := by
  intro l active
  cases h.symm.trans active

theorem CountFits.of_eq {m m' : Machine} (h : m'.loop = m.loop) (count : m.CountFits) :
    m'.CountFits := by
  intro l active
  exact count l (h.symm.trans active)

theorem fits_of_loopHere {p : Program} {m : Machine} {l : Loop} (valid : m.tape.Valid)
    (h : m.loopHere p = .ok l) : Cell.Fits l.remaining := by
  obtain ⟨argument, found, h⟩ := Fault.ok_of_bind h
  cases argument with
  | none =>
    cases h
    exact valid.value_fits
  | some count =>
    cases h
    exact Cursor.fits_of_argument valid found

theorem arm_countFits {p : Program} {t : Token} {m : Machine} (valid : m.tape.Valid)
    (count : m.CountFits) : (m.arm p t).2.CountFits := by
  unfold arm
  cases here : m.loopHere p with
  | error f => exact count
  | ok loop =>
    intro l active
    cases active
    exact fits_of_loopHere valid here

theorem openLoop_countFits {p : Program} {t : Token} {m : Machine} (valid : m.tape.Valid)
    (count : m.CountFits) : (m.openLoop p t).2.CountFits := by
  unfold openLoop
  split
  · exact count
  · exact arm_countFits valid count

theorem fits_pred {v : Int} (fits : Cell.Fits v) (positive : 0 < v) : Cell.Fits (v - 1) := by
  unfold Cell.Fits Cell.least Cell.greatest at *
  omega

theorem rewind_loop (loop : Loop) (m : Machine) :
    (m.rewind loop).2.loop = m.loop ∨ (m.rewind loop).2.loop = none := by
  unfold rewind
  split
  · exact .inl rfl
  · exact .inr rfl

/-- A loop that has passes left loses one of them, also where the `]` fails. -/
theorem closeLoop_loop {t : Token} {m : Machine} {l : Loop} (active : m.loop = some l)
    (positive : 0 < l.remaining) :
    (m.closeLoop t).2.loop = some { l with remaining := l.remaining - 1 } ∨
      (m.closeLoop t).2.loop = none := by
  simp only [closeLoop, active, Int.not_le.mpr positive, if_false]
  split
  · split
    · exact rewind_loop _ _
    · exact .inl rfl
  · exact rewind_loop _ _

theorem closeLoop_of_spent {t : Token} {m : Machine} {l : Loop} (active : m.loop = some l)
    (spent : l.remaining ≤ 0) : m.closeLoop t = (.ok .next, { m with loop := none }) := by
  simp only [closeLoop, active, spent, if_true]

theorem closeLoop_countFits {t : Token} {m : Machine} (count : m.CountFits) :
    (m.closeLoop t).2.CountFits := by
  cases active : m.loop with
  | none =>
    simp only [closeLoop, active]
    exact count
  | some l =>
    -- A count that was negative from the start is not lowered further.
    rcases Int.lt_or_le 0 l.remaining with positive | spent
    · rcases closeLoop_loop (t := t) active positive with lowered | dropped
      · intro k running
        cases lowered.symm.trans running
        exact fits_pred (count l active) positive
      · exact .of_none dropped
    · rw [closeLoop_of_spent active spent]
      exact .of_none rfl

theorem dispatch_countFits {p : Program} {t : Token} {m : Machine} (valid : m.tape.Valid)
    (count : m.CountFits) : (m.dispatch p t).2.CountFits := by
  cases loops : t.kind.loops with
  | false => exact count.of_eq ((dispatch_frame p t m).loop loops)
  | true =>
    cases kind : t.kind <;> simp only [kind, Kind.loops, Bool.false_eq_true] at loops
    case newline =>
      simp only [dispatch, kind]
      exact arm_countFits (m.tape.feed_keeps.valid valid) (count.of_eq rfl)
    case loopStart =>
      simp only [dispatch, kind]
      exact openLoop_countFits valid count
    case loopEnd =>
      simp only [dispatch, kind]
      exact closeLoop_countFits count

/-- What holds of a machine as long as it runs on a tape with so many cells and this stomach. -/
structure Sound (capacity stomach : Nat) (m : Machine) : Prop where
  valid : m.tape.Valid
  size_eq : m.tape.cells.size = capacity
  stomach_eq : m.tape.stomach = stomach
  count : m.CountFits

section

variable {capacity stomach : Nat} {m m' : Machine}

theorem Sound.of_keeps (h : m.Sound capacity stomach) (kept : m.tape.Keeps m'.tape)
    (count : m'.CountFits) : m'.Sound capacity stomach where
  valid := kept.valid h.valid
  size_eq := kept.size.trans h.size_eq
  stomach_eq := kept.stomach.trans h.stomach_eq
  count := count

/-- Nothing but the streams and the position changes between two instructions. -/
theorem settled_keeps (t : Token) (r : Except Fault Flow × Machine) :
    (settled t r).machine.tape = r.2.tape ∧ (settled t r).machine.loop = r.2.loop := by
  obtain ⟨f | flow, m⟩ := r
  · exact ⟨rfl, rfl⟩
  · cases flow with
    | halt | skip => exact ⟨rfl, rfl⟩
    | next =>
      unfold settled
      dsimp only
      split
      · rw [starve_eq]
        exact ⟨rfl, rfl⟩
      · exact ⟨rfl, rfl⟩

theorem step_sound (p : Program) (h : m.Sound capacity stomach) :
    (m.step p).machine.Sound capacity stomach := by
  rcases step_cases p m with ⟨-, completed⟩ | ⟨t, -, -, ignored⟩ | ⟨t, -, acts⟩
  · rw [completed]
    exact h
  · rw [ignored]
    exact h.of_keeps (.refl _) h.count
  · rw [acts]
    obtain ⟨tape, loop⟩ := settled_keeps t (m.dispatch p t)
    apply h.of_keeps
    · rw [tape]
      exact dispatch_keeps p t m
    · exact (dispatch_countFits h.valid h.count).of_eq loop

theorem after_sound {p : Program} {n : Nat} {k : Machine} (h : m.Sound capacity stomach)
    (reached : m.after p n = some k) : k.Sound capacity stomach := by
  induction n generalizing k with
  | zero =>
    cases reached
    exact h
  | succ n ih =>
    obtain ⟨a, before, running⟩ := after_succ_iff.mp reached
    have stepped := step_sound p (ih before)
    rwa [running] at stepped

theorem started_sound {tape : Tape} (made : Tape.ofCapacity capacity stomach = .ok tape)
    (console : Console) (p : Program) :
    ((ofTape tape console).started p).Sound capacity stomach := by
  have valid := Tape.ofCapacity_valid made
  obtain ⟨inside, rfl⟩ := Tape.ofCapacity_ok made
  exact ⟨valid, Array.size_replicate, rfl, .of_none rfl⟩

/-- A move goes to the exact sum of the current index and the signed distance, or fails by it. -/
theorem dispatch_of_direction {p : Program} {t : Token} {d distance : Int}
    (moves : t.kind.direction? = some d)
    (argument : (m.cursor p).argumentOr m.tape 1 = .ok distance) :
    let sum := m.tape.current + d * distance
    m.dispatch p t =
      if 0 ≤ sum ∧ sum < m.tape.cells.size then (.ok .next, m.seek sum.toNat)
      else (.error (.cellOutOfRange sum m.tape.cells.size t.location), m) := by
  intro sum
  have moved : m.dispatch p t = m.move p t d := by
    unfold dispatch
    cases kind : t.kind <;> simp only [kind, Kind.direction?, reduceCtorEq] at moves <;> cases moves
      <;> rfl
  by_cases inside : 0 ≤ sum ∧ sum < m.tape.cells.size
  · have target : m.tape.target (d * distance) = .ok sum.toNat := if_pos inside
    have destination : m.destination p t d = .ok sum.toNat := by
      simp only [destination, argument, target, bind, Except.bind]
    rw [moved, move, destination, if_pos inside]
    rfl
  · have target : m.tape.target (d * distance) = .error ⟨sum, m.tape.cells.size⟩ := if_neg inside
    have destination : m.destination p t d =
        .error (.cellOutOfRange sum m.tape.cells.size t.location) := by
      simp only [destination, argument, target, bind, Except.bind]
    rw [moved, move, destination, if_neg inside]
    rfl

theorem sum_in_range {kind : Kind} {d distance : Int}
    (small : m.tape.cells.size ≤ 2305843009213693952) (valid : m.tape.Valid)
    (moves : kind.direction? = some d) (fits : Cell.Fits distance) :
    -9223372036854775808 < m.tape.current + d * distance ∧
      m.tape.current + d * distance < 9223372036854775807 := by
  have current := valid.current_lt
  unfold Cell.Fits Cell.least Cell.greatest at fits
  have unit : d = -1 ∨ d = 1 := by
    cases kind <;> simp only [Kind.direction?, reduceCtorEq, Option.some.injEq] at moves <;> omega
  rcases unit with rfl | rfl <;> omega

/-- All through a run, and also after its last turn, the tape has the cells and the stomach of the
start, both indices are on it, and the cells and the count of the loop are cell values. On a tape
of at most 2^61 cells, as many as fit into memory, the sum that a move forms is strictly inside the
signed 64-bit words, and the move goes by that sum. A `]` lowers the count only to a cell value, and
not at all when no pass is left. -/
theorem tape_and_sums_in_range {tape : Tape} (made : Tape.ofCapacity capacity stomach = .ok tape)
    (small : capacity ≤ 2305843009213693952) (console : Console) (p : Program) {n : Nat}
    (reached : ((ofTape tape console).started p).after p n = some m) :
    m.Sound capacity stomach ∧ (m.step p).machine.Sound capacity stomach ∧
    (∀ t d distance, m.taken? p = some t → t.kind.direction? = some d →
      (m.cursor p).argumentOr m.tape 1 = .ok distance →
      let sum := m.tape.current + d * distance
      (-9223372036854775808 < sum ∧ sum < 9223372036854775807) ∧
      m.dispatch p t =
        if 0 ≤ sum ∧ sum < capacity then (.ok .next, m.seek sum.toNat)
        else (.error (.cellOutOfRange sum capacity t.location), m)) ∧
    ∀ t l, m.taken? p = some t → t.kind = .loopEnd → m.loop = some l →
      if 0 < l.remaining then
        Cell.Fits (l.remaining - 1) ∧
          ((m.dispatch p t).2.loop = some { l with remaining := l.remaining - 1 } ∨
            (m.dispatch p t).2.loop = none)
      else m.dispatch p t = (.ok .next, { m with loop := none }) := by
  have sound := after_sound (started_sound made console p) reached
  refine ⟨sound, step_sound p sound, ?_, ?_⟩
  · intro t d distance _ moves argument
    have fits := Cursor.fits_of_argumentOr sound.valid argument
    rw [← sound.size_eq] at small ⊢
    exact ⟨sum_in_range small sound.valid moves fits, dispatch_of_direction moves argument⟩
  · intro t l _ kind active
    have closes : m.dispatch p t = m.closeLoop t := by simp only [dispatch, kind]
    rw [closes]
    split
    · rename_i positive
      exact ⟨fits_pred (sound.count l active) positive, closeLoop_loop active positive⟩
    · rename_i spent
      exact closeLoop_of_spent active (Int.not_lt.mp spent)

/-- A cell is lowered to the least cell value, and then a `<` moves by that cell. -/
def leap : Program :=
  #[⟨.decrement, "-", ⟨1, 1⟩⟩, ⟨.parenOpen, "(", ⟨1, 2⟩⟩, ⟨.number, "2147483647", ⟨1, 3⟩⟩,
    ⟨.parenClose, ")", ⟨1, 13⟩⟩, ⟨.decrement, "-", ⟨1, 14⟩⟩, ⟨.moveLeft, "<", ⟨1, 15⟩⟩,
    ⟨.parenOpen, "(", ⟨1, 16⟩⟩, ⟨.mention, "$", ⟨1, 17⟩⟩, ⟨.number, "0", ⟨1, 18⟩⟩]

/-- The move to the left goes to the right, farther than any cell value. -/
theorem tape_and_sums_in_range_leap :
    let m : Machine :=
      { (ofTape ⟨#[-2147483648, 0], 0, 1⟩ { input := { rest := [] } }) with position := 5 }
    ((ofTape ⟨#[0, 0], 0, 1⟩ { input := { rest := [] } }).started leap).after leap 5 = some m ∧
      m.Sound 2 1 ∧ (m.step leap).machine.Sound 2 1 ∧
      m.dispatch leap ⟨.moveLeft, "<", ⟨1, 15⟩⟩ =
        (.error (.cellOutOfRange 2147483648 2 ⟨1, 15⟩), m) := by
  intro m
  have reached : ((ofTape ⟨#[0, 0], 0, 1⟩ { input := { rest := [] } }).started leap).after leap 5 =
      some m := by
    decide +kernel
  have made : Tape.ofCapacity 2 1 = .ok ⟨#[0, 0], 0, 1⟩ := rfl
  have argument : Cursor.argumentOr ⟨leap, 5⟩ ⟨#[-2147483648, 0], 0, 1⟩ 1 = .ok (-2147483648) := rfl
  obtain ⟨sound, stepped, moves, -⟩ := tape_and_sums_in_range made (by decide) _ leap reached
  have current : m.tape.current = 0 := rfl
  have sum : (m.tape.current : Int) + -1 * -2147483648 = 2147483648 := by omega
  have moved := (moves _ (-1) _ rfl rfl argument).2
  rw [sum, if_neg (by decide)] at moved
  exact ⟨reached, sound, stepped, moved⟩

end

end Machine

end HungryTape
