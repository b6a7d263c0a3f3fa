import HungryTape.Proofs.Faults
import HungryTape.Proofs.Operands
import HungryTape.Proofs.TapeBounds
import HungryTape.Proofs.Words

namespace HungryTape

/-- The faults that are about an instruction and not about one of its operands. -/
def Fault.isGeneral : Fault → Bool
  | cellOutOfRange _ _ _ | malformedArgument _ _ | overflow (.literal _) _ | stream _ => false
  | divisionByZero _ | moduloByZero _ | malformedCondition _ _ | unterminatedLoop _
  | overflow (.operation _ _ _) _ | invalidInput _ _ => true

/-- A fault of the instruction under the cursor is about the token that stands so many tokens
behind it. -/
inductive Cursor.Blames (c : Cursor) (tape : Tape) : Fault → Nat → Token → Prop where
  /-- A literal that no cell can hold -/
  | literal {k : Nat} {u : Token} (place : k = 2 ∨ k = 7) (there : c.peek? k = some u)
      (number : u.kind = .number) (unfit : ∀ v, u.integer? = some v → ¬ Cell.Fits v) :
      Blames c tape (.overflow (.literal u.lexeme) u.location) k u
  /-- The index of a cell that the tape does not have, behind its `$` -/
  | reference {k : Nat} {u : Token} (place : k = 2 ∨ k = 7)
      (mention : c.kind? k = some .mention) (there : c.peek? (k + 1) = some u)
      (number : u.kind = .number)
      (outside : ∀ index : Nat, u.integer? = some (index : Int) → tape.capacity ≤ index) :
      Blames c tape (.cellOutOfRange u.reported tape.capacity u.location) (k + 1) u
  /-- A `$` without an index -/
  | argument {u : Token} (there : c.peek? 2 = some u) (mention : u.kind = .mention)
      (missing : c.kind? 3 ≠ some .number) :
      Blames c tape (.malformedArgument (c.peek? 3) u.location) 2 u
  /-- A move, with an argument that could be read, to a cell that the tape does not have -/
  | move {direction distance index : Int} {u : Token} (here : c.current? = some u)
      (moves : u.kind.direction? = some direction)
      (argument : c.argumentOr tape 1 = .ok distance)
      (sum : index = tape.current + direction * distance)
      (outside : index < 0 ∨ tape.capacity ≤ index) :
      Blames c tape (.cellOutOfRange index tape.capacity u.location) 0 u
  | general {f : Fault} {u : Token} (here : c.current? = some u) (isGeneral : f.isGeneral = true)
      (location : f.location? = some u.location) : Blames c tape f 0 u

theorem Operator.applyAt_error {location : Location} {op : Operator} {a b : Int} {f : Fault}
    (h : op.applyAt location a b = .error f) :
    f.isGeneral = true ∧ f.location? = some location := by
  unfold applyAt at h
  split at h <;> cases h <;> exact ⟨rfl, rfl⟩

theorem Tape.target_error {t : Tape} {delta : Int} {e : CellOutOfRange}
    (h : t.target delta = .error e) :
    e.index = t.current + delta ∧ (e.index < 0 ∨ t.capacity ≤ e.index) ∧
      e.capacity = t.capacity := by
  unfold target at h
  dsimp only at h
  split at h
  · cases h
  · rename_i outside
    cases h
    refine ⟨rfl, ?_, rfl⟩
    simp only [capacity]
    omega

namespace Cursor

variable {c : Cursor} {tape tape' : Tape} {f : Fault}

theorem Blames.there {k : Nat} {u : Token} (h : c.Blames tape f k u) : c.peek? k = some u := by
  cases h with
  | literal _ there _ _ | reference _ _ there _ _ | argument there _ _ => exact there
  | move here _ _ _ _ | general here _ _ => exact here

theorem Blames.location {k : Nat} {u : Token} (h : c.Blames tape f k u) :
    f.location? = some u.location := by
  cases h with
  | literal | reference | argument | move => rfl
  | general _ _ location => exact location

theorem Blames.place {k : Nat} {u : Token} (h : c.Blames tape f k u) :
    k ∈ [0, 2, 3, 7, 8] := by
  cases h with
  | literal place _ _ _ | reference place _ _ _ _ => rcases place with rfl | rfl <;> decide
  | argument | move | general => decide

/-- The fault is that of a stream, or some token is to blame. -/
def Explains (c : Cursor) (tape : Tape) (f : Fault) : Prop :=
  (∃ message, f = .stream message) ∨ ∃ k u, c.Blames tape f k u

theorem Blames.explains {k : Nat} {u : Token} (h : c.Blames tape f k u) :
    c.Explains tape f :=
  .inr ⟨k, u, h⟩

/-- Only the number of cells matters, so the tape may have been fed before. -/
theorem mentioned_explains {k : Nat} (place : k = 2 ∨ k = 7) (mention : c.kind? k = some .mention)
    (capacity : tape'.capacity = tape.capacity) (h : c.mentioned tape' (k + 1) = .error f) :
    c.Explains tape f := by
  unfold mentioned at h
  split at h
  · rename_i u there
    split at h
    · rename_i number
      obtain ⟨outside, rfl⟩ := Token.cell_eq_error_iff.mp (Fault.error_of_map h)
      rw [capacity] at outside ⊢
      exact (Blames.reference place mention there number outside).explains
    · cases h
  · cases h

theorem mentioned_none {k : Nat} (h : c.mentioned tape k = .ok none) :
    c.kind? k ≠ some .number := by
  unfold mentioned at h
  unfold kind?
  split at h
  · rename_i u there
    split at h
    · obtain ⟨v, -, given⟩ := Fault.ok_of_map h
      cases given
    · rename_i other
      simpa [there] using other
  · rename_i past
    simp [past]

theorem literal_explains {k : Nat} {u : Token} (place : k = 2 ∨ k = 7)
    (there : c.peek? k = some u) (number : u.kind = .number) (h : u.literal = .error f) :
    c.Explains tape f := by
  obtain ⟨unfit, rfl⟩ := Token.literal_eq_error_iff.mp h
  exact (Blames.literal place there number unfit).explains

theorem argument_explains (capacity : tape'.capacity = tape.capacity)
    (h : c.argument tape' = .error f) : c.Explains tape f := by
  unfold argument at h
  split at h
  · rename_i u _ there
    split at h
    · rename_i number
      exact literal_explains (.inl rfl) there number (Fault.error_of_map h)
    · rename_i mention
      split at h
      · rename_i missing
        cases h
        exact (Blames.argument there mention (mentioned_none missing)).explains
      · exact mentioned_explains (.inl rfl) (by simp [kind?, there, mention]) capacity h
    · cases h
  · cases h

theorem argumentOr_explains {default : Int} (h : c.argumentOr tape default = .error f) :
    c.Explains tape f :=
  argument_explains rfl (Fault.error_of_map h)

/-- What is wrong with the header of a conditional is the fault of its `{`, but for operands that
are well formed and have no value. -/
theorem conditionOperand_explains {t : Token} {k : Nat} (here : c.current? = some t)
    (place : k = 2 ∨ k = 7) (h : c.conditionOperand tape t.location k = .error f) :
    c.Explains tape f := by
  unfold conditionOperand at h
  split at h
  · cases h
    exact (Blames.general here rfl rfl).explains
  · rename_i u there
    split at h
    · rename_i number
      exact literal_explains place there number h
    · rename_i mention
      split at h
      · cases h
      · cases h
        exact (Blames.general here rfl rfl).explains
      · rename_i misread
        cases h
        exact mentioned_explains place (by simp [kind?, there, mention]) rfl misread
    · cases h
      exact (Blames.general here rfl rfl).explains

theorem condition_explains {t : Token} (here : c.current? = some t)
    (h : c.condition tape t.location = .error f) : c.Explains tape f := by
  unfold condition at h
  rcases Fault.error_of_bind h with misread | ⟨left, -, h⟩
  · exact conditionOperand_explains here (.inl rfl) misread
  · split at h
    · cases h
      exact (Blames.general here rfl rfl).explains
    · rcases Fault.error_of_bind h with misread | ⟨right, -, h⟩
      · exact conditionOperand_explains here (.inr rfl) misread
      · cases h

end Cursor

namespace Machine

theorem settle_undecided {α : Type} {m : Machine} {decision : Except Fault α}
    {act : Machine → α → Machine} {f : Fault} (h : (m.settle decision act).1 = .error f) :
    decision = .error f := by
  cases decision with
  | error g => cases h; rfl
  | ok a => cases h

section

variable {p : Program} {t : Token} {m : Machine} {f : Fault}

theorem emit_explains {bytes : List UInt8} (h : (m.emit bytes).1 = .error f) :
    (m.cursor p).Explains m.tape f := by
  unfold emit at h
  split at h
  · cases h
  · cases h
    exact .inl ⟨_, rfl⟩

theorem applyAt_explains {op : Operator} {a b : Int} (here : (m.cursor p).current? = some t)
    (h : op.applyAt t.location a b = .error f) : (m.cursor p).Explains m.tape f := by
  obtain ⟨general, location⟩ := Operator.applyAt_error h
  exact (Cursor.Blames.general here general location).explains

theorem move_explains {d : Int} (here : (m.cursor p).current? = some t)
    (moves : t.kind.direction? = some d) (h : (m.move p t d).1 = .error f) :
    (m.cursor p).Explains m.tape f := by
  rcases Fault.error_of_bind (settle_undecided h) with misread | ⟨distance, argument, h⟩
  · exact Cursor.argumentOr_explains misread
  · split at h
    · cases h
    · rename_i e off
      obtain ⟨sum, outside, capacity⟩ := Tape.target_error off
      cases h
      rw [capacity]
      exact (Cursor.Blames.move here moves argument sum outside).explains

theorem adjust_explains {op : Operator} (here : (m.cursor p).current? = some t)
    (h : (m.adjust p t op).1 = .error f) : (m.cursor p).Explains m.tape f := by
  rcases Fault.error_of_bind (settle_undecided h) with misread | ⟨amount, -, h⟩
  · exact Cursor.argumentOr_explains misread
  · exact applyAt_explains here h

theorem scale_explains {op : Operator} (here : (m.cursor p).current? = some t)
    (h : (m.scale p t op).1 = .error f) : (m.cursor p).Explains m.tape f := by
  unfold scale at h
  split at h
  · rename_i misread
    cases h
    exact Cursor.argument_explains rfl misread
  · cases h
  · exact applyAt_explains here (settle_undecided h)

theorem read_explains {reader : Input → Reading × Input} (here : (m.cursor p).current? = some t)
    (h : (m.read reader t).1 = .error f) : (m.cursor p).Explains m.tape f := by
  unfold read at h
  split at h
  · cases h
    exact .inl ⟨_, rfl⟩
  · dsimp only at h
    split at h
    · cases h
    · cases h
    · cases h
      exact (Cursor.Blames.general here rfl rfl).explains
    · cases h
      exact .inl ⟨_, rfl⟩

theorem arm_explains {tape : Tape} (capacity : m.tape.capacity = tape.capacity)
    (h : (m.arm p t).1 = .error f) : (m.cursor p).Explains tape f := by
  rcases Fault.error_of_bind (settle_undecided h) with misread | ⟨found, -, h⟩
  · exact Cursor.argument_explains capacity misread
  · cases found <;> cases h

theorem openLoop_explains (here : (m.cursor p).current? = some t)
    (h : (m.openLoop p t).1 = .error f) : (m.cursor p).Explains m.tape f := by
  unfold openLoop at h
  split at h
  · cases h
    exact (Cursor.Blames.general here rfl rfl).explains
  · exact arm_explains rfl h

theorem closeLoop_explains (here : (m.cursor p).current? = some t)
    (h : (m.closeLoop t).1 = .error f) : (m.cursor p).Explains m.tape f := by
  have rewind_ok {l : Loop} {n : Machine} : (n.rewind l).1 ≠ .error f := by
    unfold rewind
    split <;> simp
  unfold closeLoop at h
  split at h
  · cases h
  · split at h
    · cases h
    · dsimp only at h
      split at h
      · split at h
        · exact absurd h rewind_ok
        · rename_i unpaid
          cases h
          exact applyAt_explains here unpaid
      · exact absurd h rewind_ok

theorem branch_explains (here : (m.cursor p).current? = some t)
    (h : (m.branch p t).1 = .error f) : (m.cursor p).Explains m.tape f := by
  unfold branch at h
  split at h
  · rename_i header
    cases h
    exact Cursor.condition_explains here header
  · dsimp only at h
    split at h
    · cases h
    · cases h
      exact (Cursor.Blames.general here rfl rfl).explains

theorem printLiteral_explains (h : (m.printLiteral p).1 = .error f) :
    (m.cursor p).Explains m.tape f := by
  unfold printLiteral at h
  split at h
  · cases h
  · split at h
    · exact emit_explains h
    · split at h
      · cases h
      · rename_i emitted
        cases h
        exact emit_explains (congrArg Prod.fst emitted)

theorem dispatch_explains (here : (m.cursor p).current? = some t)
    (h : (m.dispatch p t).1 = .error f) : (m.cursor p).Explains m.tape f := by
  unfold dispatch at h
  cases kind : t.kind <;> simp only [kind] at h
  case moveLeft | moveRight => exact move_explains here (kind ▸ rfl) h
  case increment | decrement => exact adjust_explains here h
  case multiply | divide | modulo => exact scale_explains here h
  case printChar | printInt => exact emit_explains h
  case printLiteral => exact printLiteral_explains h
  case readChar | readInt => exact read_explains here h
  case newline =>
    -- The line is paid before its argument is read.
    have capacity : m.tape.feed.capacity = m.tape.capacity := by simp [Tape.feed, Tape.capacity]
    exact arm_explains (m := { m with tape := m.tape.feed }) capacity h
  case loopStart => exact openLoop_explains here h
  case loopEnd => exact closeLoop_explains here h
  case condStart => exact branch_explains here h
  all_goals cases h

end

theorem run_faulted {p : Program} {m final : Machine} {f : Fault}
    (ran : m.run p = (.error f, final)) (inside : ∀ message, f ≠ .stream message) :
    ∃ n k t last, (m.started p).after p n = some k ∧ k.taken? p = some t ∧
      k.dispatch p t = (.error f, last) ∧ final.position = k.position := by
  obtain ⟨n, k, result, last, reached, finished⟩ := exists_last p (m.started p)
  rw [run_of_finished reached finished, Prod.mk.injEq] at ran
  obtain ⟨failed, rfl⟩ := ran
  unfold verdict at failed
  split at failed
  · cases failed
    cases step_finished finished with
    | silenced => exact absurd rfl (inside _)
    | faulted taken dispatched =>
      refine ⟨n, k, _, last, reached, taken, dispatched, ?_⟩
      cases dispatch_failed dispatched <;> rfl
  · cases failed
    exact absurd rfl (inside _)
  · cases failed

end Machine

theorem Program.token_starts {source : String} {limit : Option Nat} {p : Program}
    (scanned : ofSource source limit = .ok p) {i : Nat} {u : Token} (here : p[i]? = some u) :
    ∃ before after, source.toList = before ++ u.lexeme.toList ++ after ∧ u.lexeme ≠ "" ∧
      u.location = .behind before := by
  rw [eq_of_ofSource scanned, List.getElem?_toArray] at here
  let tokens := Scanner.tokensFrom .start source.toList
  have spelled : spelling tokens = source.toList := Scanner.spelling_tokensFrom _ _
  refine ⟨spelling (tokens.take i), spelling (tokens.drop (i + 1)), ?_, ?_, ?_⟩
  · rw [← spelled, spelling_split here]
  · exact Scanner.lexeme_ne_nil_of_mem_tokensFrom (List.mem_of_getElem? here)
  · exact Scanner.location_tokensFrom [] source.toList here

/-- The fault of a run, unless it is that of a stream, is raised by the instruction at which the
machine stands in the end, and its location is that of the token that is to blame: a literal or the
index of a reference behind the instruction, the `$` of an argument without an index, or the
instruction itself. So it is a line and a column of the source at which a token starts. A number
that is to blame is worth what its digits say. -/
theorem Machine.faults_point_at_source {source : String} {limit : Option Nat} {p : Program}
    (scanned : Program.ofSource source limit = .ok p) (tape : Tape) (console : Console) {f : Fault}
    {final : Machine} (ran : (ofTape tape console).run p = (.error f, final))
    (inside : ∀ message, f ≠ .stream message) :
    ∃ n m t k u, ((ofTape tape console).started p).after p n = some m ∧ m.taken? p = some t ∧
      (m.dispatch p t).1 = .error f ∧ final.position = m.position ∧
      (m.cursor p).Blames m.tape f k u ∧ k ∈ [0, 2, 3, 7, 8] ∧
      p[final.position + k]? = some u ∧ f.location? = some u.location ∧
      (u.kind = .number → u.integer? = some (Numeral.placeValue u.digits : Int)) ∧
      ∃ before after, source.toList = before ++ u.lexeme.toList ++ after ∧ u.lexeme ≠ "" ∧
        u.location.line = 1 + before.count '\n' ∧
        u.location.column = 1 + (before.reverse.takeWhile (· ≠ '\n')).length := by
  obtain ⟨n, m, t, last, reached, taken, dispatched, position⟩ := run_faulted ran inside
  have here : (m.cursor p).current? = some t := (taken?_eq_some_iff.mp taken).2
  have failed : (m.dispatch p t).1 = .error f := congrArg Prod.fst dispatched
  rcases dispatch_explains here failed with ⟨message, rfl⟩ | ⟨k, u, blames⟩
  · exact absurd rfl (inside message)
  · have there : p[m.position + k]? = some u := blames.there
    obtain ⟨before, after, spelled, lexeme, location⟩ := Program.token_starts scanned there
    refine ⟨n, m, t, k, u, reached, taken, failed, position, blames, blames.place,
      position ▸ there, blames.location, ?_, before, after, spelled, lexeme, ?_, ?_⟩
    · intro number
      exact Token.integer?_of_spelled (number ▸ Program.spells_of_scanned scanned there)
    · exact congrArg Location.line location
    · exact congrArg Location.column location

/-- A line that is paid for, and a conditional about a cell that a small tape does not have. -/
def Machine.misguided : Program :=
  #[⟨.increment, "+", ⟨1, 1⟩⟩, ⟨.newline, "\n", ⟨1, 2⟩⟩, ⟨.condStart, "\x7b", ⟨2, 1⟩⟩,
    ⟨.parenOpen, "(", ⟨2, 2⟩⟩, ⟨.mention, "$", ⟨2, 3⟩⟩, ⟨.number, "0", ⟨2, 4⟩⟩,
    ⟨.parenClose, ")", ⟨2, 5⟩⟩, ⟨.equal, "e", ⟨2, 6⟩⟩, ⟨.unknown, " ", ⟨2, 7⟩⟩,
    ⟨.mention, "$", ⟨2, 8⟩⟩, ⟨.number, "7", ⟨2, 9⟩⟩]

/-- The machine stands at the `{` in the end, and the fault points at the index eight tokens on. -/
theorem Machine.faults_point_at_source_misguided :
    let console : Console := { input := { rest := [] } }
    let r := (ofTape ⟨#[0], 0, 0⟩ console).run misguided
    Program.ofSource "+\n\x7b($0)e $7" none = .ok misguided ∧
      r.1 = .error (.cellOutOfRange 7 1 ⟨2, 9⟩) ∧ r.2.position = 2 ∧
      ∃ k u, k ∈ [0, 2, 3, 7, 8] ∧ misguided[2 + k]? = some u ∧ u.location = ⟨2, 9⟩ := by
  have scanned : Program.ofSource "+\n\x7b($0)e $7" none = .ok misguided :=
    (Program.ofSource_none _).trans (congrArg Except.ok (by decide +kernel))
  have reached :
      ((ofTape ⟨#[0], 0, 0⟩ { input := { rest := [] } }).started misguided).after misguided 2 =
        some { ofTape ⟨#[0], 0, 0⟩ { input := { rest := [] } } with
          position := 2
          loop := some ⟨1, 0, true⟩ } := by
    decide +kernel
  have ran := run_of_finished reached rfl
  obtain ⟨-, -, -, k, u, -, -, -, -, -, place, there, location, -⟩ :=
    faults_point_at_source scanned _ _ ran nofun
  exact ⟨scanned, congrArg Prod.fst ran, congrArg (fun r => r.2.position) ran, k, u, place, there,
    (Option.some.inj location).symm⟩

end HungryTape
