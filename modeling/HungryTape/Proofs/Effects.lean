import HungryTape.Proofs.Faults
import HungryTape.Proofs.Frame
import HungryTape.Proofs.TapeBounds

namespace HungryTape

namespace Kind

/-- The instructions that may write into the current cell. -/
def storing : List Kind :=
  [.increment, .decrement, .multiply, .divide, .modulo, .cleanse, .readChar, .readInt, .loopEnd]

def comparing : List Kind :=
  [.condStart, .condEnd]

def reading : List Kind :=
  [.readChar, .readInt]

theorem direction?_of_storing {kind : Kind} (stores : kind ∈ storing) :
    kind.direction? = none := by
  revert kind
  decide

/-- The instructions that move, print, jump and touch the loop, by name. -/
theorem mem_of_part (kind : Kind) :
    (kind.direction? ≠ none → kind ∈ [moveLeft, moveRight]) ∧
    (kind.prints = true → kind ∈ [printChar, printInt, printLiteral]) ∧
    (kind.jumps = true → kind ∈ [condStart, loopEnd, printLiteral]) ∧
    (kind.loops = true → kind ∈ [newline, loopStart, loopEnd]) := by
  cases kind <;> decide

end Kind

namespace Machine

/-- What an instruction of the kind may do, change by change. The position, the loop, the comment
flag and the journal are not told here. -/
inductive Alters (kind : Kind) (m : Machine) : Machine → Prop where
  | refl : Alters kind m m
  | store {n : Machine} (h : Alters kind m n) (stores : kind ∈ Kind.storing) (v : Int) :
      Alters kind m (n.store v)
  | feed {n : Machine} (h : Alters kind m n) (line : kind = .newline) :
      Alters kind m { n with tape := n.tape.feed }
  | seek {n : Machine} (h : Alters kind m n) (moves : kind.direction? ≠ none) (index : Nat) :
      Alters kind m (n.seek index)
  | compare {n : Machine} (h : Alters kind m n) (compares : kind ∈ Kind.comparing)
      (comparison : Option Comparison) : Alters kind m { n with comparison }
  | flush {n : Machine} (h : Alters kind m n) (reads : kind ∈ Kind.reading) :
      Alters kind m { n with output := n.output.flush }
  | take {n : Machine} (h : Alters kind m n) (reads : kind ∈ Kind.reading) (input : Input) :
      Alters kind m { n with input }
  | write {n : Machine} (h : Alters kind m n) (prints : kind.prints = true)
      (bytes : List UInt8) : Alters kind m { n with output := n.output.write bytes }
  | aside {n : Machine} (h : Alters kind m n) (journal : Journal) (position : Nat)
      (loop : Option Loop) (commented : Bool) :
      Alters kind m { n with journal, position, loop, commented }

section

variable {kind : Kind} {m n : Machine}

theorem settle_alters {α : Type} {decision : Except Fault α} {act : Machine → α → Machine}
    (h : Alters kind m n) (acts : ∀ a, Alters kind m (act n a)) :
    Alters kind m (n.settle decision act).2 := by
  cases decision with
  | error f => exact h
  | ok a => exact acts a

theorem emit_alters (h : Alters kind m n) (prints : kind.prints = true) (bytes : List UInt8) :
    Alters kind m (n.emit bytes).2 := by
  rw [emit_snd]
  exact h.write prints bytes

theorem move_alters (moves : kind.direction? ≠ none) (p : Program) (t : Token) (d : Int) :
    Alters kind m (m.move p t d).2 :=
  settle_alters .refl (Alters.refl.seek moves)

theorem adjust_alters (stores : kind ∈ Kind.storing) (p : Program) (t : Token) (op : Operator) :
    Alters kind m (m.adjust p t op).2 :=
  settle_alters .refl (Alters.refl.store stores)

theorem scale_alters (stores : kind ∈ Kind.storing) (p : Program) (t : Token) (op : Operator) :
    Alters kind m (m.scale p t op).2 := by
  unfold scale
  split
  · exact .refl
  · exact .refl
  · exact settle_alters .refl (Alters.refl.store stores)

theorem cleanse_alters (stores : kind ∈ Kind.storing) : Alters kind m m.cleanse := by
  unfold cleanse
  split
  · exact Alters.refl.store stores 0
  · exact .refl

theorem read_alters (stores : kind ∈ Kind.storing) (reads : kind ∈ Kind.reading)
    (reader : Input → Reading × Input) (t : Token) : Alters kind m (m.read reader t).2 := by
  unfold read
  split
  · exact .refl
  · have flushed : Alters kind m { m with output := m.output.flush } := Alters.refl.flush reads
    have taken := flushed.take reads (reader m.input).2
    dsimp only
    split
    · exact taken.store stores _
    · exact taken.aside _ _ _ _
    · exact taken
    · exact taken

theorem arm_alters (h : Alters kind m n) (p : Program) (t : Token) :
    Alters kind m (n.arm p t).2 :=
  settle_alters h fun _ => h.aside _ _ _ _

theorem openLoop_alters (p : Program) (t : Token) : Alters kind m (m.openLoop p t).2 := by
  unfold openLoop
  split
  · exact .refl
  · exact arm_alters .refl p t

theorem rewind_alters (h : Alters kind m n) (l : Loop) : Alters kind m (n.rewind l).2 := by
  unfold rewind
  split <;> exact h.aside _ _ _ _

theorem closeLoop_alters (stores : kind ∈ Kind.storing) (t : Token) :
    Alters kind m (m.closeLoop t).2 := by
  unfold closeLoop
  split
  · exact .refl
  · rename_i l _
    split
    · exact Alters.refl.aside _ _ _ _
    · have lowered :
          Alters kind m { m with loop := some { l with remaining := l.remaining - 1 } } :=
        Alters.refl.aside _ _ _ _
      dsimp only
      split
      · split
        · exact rewind_alters (lowered.store stores _) _
        · exact lowered
      · exact rewind_alters lowered _

theorem branch_alters (compares : kind ∈ Kind.comparing) (p : Program) (t : Token) :
    Alters kind m (m.branch p t).2 := by
  unfold branch
  split
  · exact .refl
  · rename_i comparison _
    have stored : Alters kind m { m with comparison := some comparison } :=
      Alters.refl.compare compares _
    dsimp only
    split <;> exact stored.aside _ _ _ _

theorem printLiteral_alters (prints : kind.prints = true) (p : Program) :
    Alters kind m (m.printLiteral p).2 := by
  unfold printLiteral
  split
  · exact .refl
  · rename_i next _
    split
    · exact emit_alters .refl prints _
    · have emitted : Alters kind m (m.emit ((next.first?.map Text.charBytes).getD [])).2 :=
        emit_alters .refl prints _
      split <;> rename_i result <;> rw [result] at emitted
      · exact emitted.aside _ _ _ _
      · exact emitted

theorem dispatch_alters (p : Program) (t : Token) (m : Machine) :
    Alters t.kind m (m.dispatch p t).2 := by
  unfold dispatch
  cases t.kind
  case moveLeft | moveRight => exact move_alters (by decide) p t _
  case increment | decrement => exact adjust_alters (by decide) p t _
  case multiply | divide | modulo => exact scale_alters (by decide) p t _
  case printChar | printInt => exact emit_alters .refl (by decide) _
  case printLiteral => exact printLiteral_alters (by decide) p
  case readChar | readInt => exact read_alters (by decide) (by decide) _ t
  case cleanse => exact cleanse_alters (by decide)
  case newline => exact arm_alters (Alters.refl.feed rfl) p t
  case loopStart => exact openLoop_alters p t
  case loopEnd => exact closeLoop_alters (by decide) t
  case condStart => exact branch_alters (by decide) p t
  case condEnd => exact Alters.refl.compare (by decide) none
  case comment => exact Alters.refl.aside _ _ _ true
  all_goals exact .refl

/-! What is left alone, by induction on the changes. -/

theorem Alters.current_eq (h : Alters kind m n) (still : kind.direction? = none) :
    n.tape.current = m.tape.current := by
  induction h with
  | refl => rfl
  | seek _ moves => exact absurd still moves
  | _ => assumption

theorem Alters.cells_eq (h : Alters kind m n) (idle : kind ∉ Kind.storing)
    (line : kind ≠ .newline) : n.tape.cells = m.tape.cells := by
  induction h with
  | refl => rfl
  | store _ stores => exact absurd stores idle
  | feed _ newline => exact absurd newline line
  | _ => assumption

/-- The cells are written where the machine stood at first, since no instruction that writes
moves. -/
theorem Alters.cells_elsewhere (h : Alters kind m n) (line : kind ≠ .newline) {i : Nat}
    (away : i ≠ m.tape.current) : n.tape.cells[i]? = m.tape.cells[i]? := by
  induction h with
  | refl => rfl
  | store h stores v ih =>
    have current := h.current_eq (Kind.direction?_of_storing stores)
    simp only [Machine.store, Tape.store, current]
    rw [Array.getElem?_setIfInBounds_ne away.symm, ih]
  | feed _ newline => exact absurd newline line
  | _ => assumption

theorem Alters.comparison_eq (h : Alters kind m n) (idle : kind ∉ Kind.comparing) :
    n.comparison = m.comparison := by
  induction h with
  | refl => rfl
  | compare _ compares => exact absurd compares idle
  | _ => assumption

theorem Alters.input_eq (h : Alters kind m n) (idle : kind ∉ Kind.reading) :
    n.input = m.input := by
  induction h with
  | refl => rfl
  | take _ reads => exact absurd reads idle
  | _ => assumption

theorem Alters.written_eq (h : Alters kind m n) (idle : kind.prints = false) :
    n.output.written = m.output.written := by
  induction h with
  | refl => rfl
  | write _ prints => simp [idle] at prints
  | flush _ _ ih => exact (Output.flush_written _).trans ih
  | _ => assumption

end

theorem newLine_tape (p : Program) (t : Token) (m : Machine) :
    (m.newLine p t).2.tape = m.tape.feed := by
  unfold newLine arm settle
  split <;> rfl

/-- Whether it fails or not, an instruction touches only its own part of the machine. Of the cells
only the current one can change, and only by `+ - * / % # , &` and `]`, but that a newline takes
food from the stomach, if the cell can hold less, and touches no other cell. The current index
changes only by `<` and `>`, the loop by a newline and `[ ]`, the comparison by the braces, the
comment flag by `;`, the position by an opening brace, `]` and `@`, the input by `,` and `&`, and
what is written by `.`, `=` and `@`. Neither the size of the tape nor the stomach ever changes. -/
theorem instruction_touches_own_part {p : Program} {t : Token} {m m' : Machine}
    {result : Except Fault Flow} (dispatched : m.dispatch p t = (result, m')) :
    (t.kind ≠ .newline → ∀ i, i ≠ m.tape.current → m'.tape.cells[i]? = m.tape.cells[i]?) ∧
    (t.kind = .newline → m'.tape.cells = m.tape.cells.setIfInBounds m.tape.stomach
      (max (-2147483648) (m.tape.stomachValue - 1))) ∧
    (m'.tape.cells ≠ m.tape.cells →
      t.kind ∈ [.newline, .increment, .decrement, .multiply, .divide, .modulo, .cleanse, .readChar,
        .readInt, .loopEnd]) ∧
    (m'.tape.current ≠ m.tape.current → t.kind ∈ [.moveLeft, .moveRight]) ∧
    (m'.loop ≠ m.loop → t.kind ∈ [.newline, .loopStart, .loopEnd]) ∧
    (m'.comparison ≠ m.comparison → t.kind ∈ [.condStart, .condEnd]) ∧
    (m'.commented ≠ m.commented → t.kind = .comment) ∧
    (m'.position ≠ m.position → t.kind ∈ [.condStart, .loopEnd, .printLiteral]) ∧
    (m'.input ≠ m.input → t.kind ∈ [.readChar, .readInt]) ∧
    (m'.output.written ≠ m.output.written →
      t.kind ∈ [.printChar, .printInt, .printLiteral]) ∧
    m'.tape.cells.size = m.tape.cells.size ∧ m'.tape.stomach = m.tape.stomach := by
  have alters := dispatch_alters p t m
  have kept := dispatch_keeps p t m
  rw [dispatched] at alters kept
  obtain ⟨commented, position, loop⟩ := frame_of_dispatch dispatched
  obtain ⟨moving, printing, jumping, looping⟩ := t.kind.mem_of_part
  refine ⟨fun line i => alters.cells_elsewhere line, ?_, ?_, ?_, ?_,
    Decidable.not_imp_comm.mp alters.comparison_eq, ?_, ?_,
    Decidable.not_imp_comm.mp alters.input_eq, ?_, kept.size, kept.stomach⟩
  · intro line
    have tape := newLine_tape p t m
    simp only [dispatch, line] at dispatched
    rw [dispatched] at tape
    exact congrArg Tape.cells tape
  · refine Decidable.not_imp_comm.mp fun idle => ?_
    obtain ⟨line, idle⟩ := List.ne_and_not_mem_of_not_mem_cons idle
    exact alters.cells_eq idle line
  · exact fun changed => moving (mt alters.current_eq changed)
  · exact fun changed => looping (by simpa using mt loop changed)
  · refine Decidable.not_imp_comm.mp fun other => ?_
    simpa [other] using commented
  · exact fun changed => jumping (by simpa using mt position changed)
  · exact fun changed => printing (by simpa using mt alters.written_eq changed)

/-- A `]` whose loop is paid from the current cell lowers that cell alone, goes back and keeps the
loop, and a newline feeds on the stomach alone although another cell is current. -/
theorem instruction_touches_own_part_pass_and_line :
    let m : Machine :=
      { (ofTape ⟨#[5, 3, 7], 1, 2⟩ { input := { rest := [49] } }) with
        position := 4, loop := some ⟨0, 3, true⟩ }
    (∃ m', m.dispatch #[] ⟨.loopEnd, "]", ⟨1, 5⟩⟩ = (.ok .skip, m') ∧
      m'.position = 0 ∧ m'.tape.cells[1]? = some 2 ∧
      (∀ i, i ≠ 1 → m'.tape.cells[i]? = m.tape.cells[i]?) ∧ m'.input = m.input) ∧
    ∃ m', m.dispatch #[] ⟨.newline, "\n", ⟨1, 5⟩⟩ = (.ok .next, m') ∧
      m'.tape.cells = #[5, 3, 6] ∧ m'.position = 4 := by
  intro m
  constructor
  · have dispatched : m.dispatch #[] ⟨.loopEnd, "]", ⟨1, 5⟩⟩ = (.ok .skip, _) := rfl
    obtain ⟨elsewhere, -, -, -, -, -, -, -, input, -⟩ := instruction_touches_own_part dispatched
    have unread := Decidable.not_not.mp (mt input (by decide))
    exact ⟨_, dispatched, rfl, rfl, elsewhere (by decide), unread⟩
  · have dispatched : m.dispatch #[] ⟨.newline, "\n", ⟨1, 5⟩⟩ = (.ok .next, _) := rfl
    obtain ⟨-, line, -⟩ := instruction_touches_own_part dispatched
    exact ⟨_, dispatched, line rfl, rfl⟩

end Machine

end HungryTape
