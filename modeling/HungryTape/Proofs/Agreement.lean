import HungryTape.Proofs.Frame

/-!
Two machines that hold the same data, each over a program of its own and at a position of its own.
What an instruction does to the data depends on the program only through the tokens that it looks
ahead to, so if both machines find the same tokens there they go on to hold the same data.
-/

namespace HungryTape

namespace Cursor

theorem argument_of_no_paren {c : Cursor} (tape : Tape) (h : c.kind? 1 ≠ some .parenOpen) :
    c.argument tape = .ok none := by
  unfold argument
  split
  · rename_i paren _
    exact absurd paren h
  · rfl

/-- An argument is looked for token by token. -/
theorem argument_congr {c d : Cursor} (tape : Tape) (first : c.peek? 1 = d.peek? 1)
    (second : c.kind? 1 = some .parenOpen → c.peek? 2 = d.peek? 2)
    (third : ∀ t, c.kind? 1 = some .parenOpen → c.peek? 2 = some t → t.kind = .mention →
      c.peek? 3 = d.peek? 3) : c.argument tape = d.argument tape := by
  have same : c.kind? 1 = d.kind? 1 := by rw [kind?, kind?, first]
  by_cases paren : c.kind? 1 = some .parenOpen
  · have second := second paren
    cases found : c.peek? 2 with
    | none => simp only [argument, ← same, ← second, paren, found]
    | some t =>
      by_cases mention : t.kind = .mention
      · have third := third t paren found mention
        simp only [argument, mentioned, ← same, ← second, ← third, paren, found, mention]
      · simp only [argument, ← same, ← second, paren, found]
        split <;> first | rfl | exact absurd ‹_› mention
  · rw [argument_of_no_paren tape paren, argument_of_no_paren tape (same ▸ paren)]

end Cursor

namespace Machine

/-- The machines hold the same data. They may stand at different positions, be in different loops
and have noted different events. -/
structure Same (m m' : Machine) : Prop where
  tape : m'.tape = m.tape
  comparison : m'.comparison = m.comparison
  commented : m'.commented = m.commented
  input : m'.input = m.input
  output : m'.output = m.output

/-- Two instructions came to the same result and left the same data. -/
structure Agree (r r' : Except Fault Flow × Machine) : Prop where
  result : r'.1 = r.1
  same : Same r.2 r'.2

section

variable {p q : Program} {t : Token} {m m' : Machine}

theorem Same.store (same : Same m m') (v : Int) : Same (m.store v) (m'.store v) :=
  { same with tape := by simp only [Machine.store, same.tape] }

theorem settle_agree {α : Type} {decision decision' : Except Fault α}
    {act : Machine → α → Machine} (same : Same m m') (decisions : decision' = decision)
    (acts : ∀ a, Same (act m a) (act m' a)) :
    Agree (m.settle decision act) (m'.settle decision' act) := by
  subst decisions
  cases decision' with
  | error f => exact ⟨rfl, same⟩
  | ok a => exact ⟨rfl, acts a⟩

theorem emit_agree (same : Same m m') (bytes : List UInt8) :
    Agree (m.emit bytes) (m'.emit bytes) := by
  unfold emit
  rw [same.output]
  split <;> exact ⟨rfl, { same with output := rfl }⟩

theorem read_agree (same : Same m m') (reader : Input → Reading × Input) :
    Agree (m.read reader t) (m'.read reader t) := by
  unfold read
  rw [same.output]
  split
  · exact ⟨rfl, same⟩
  · dsimp only
    rw [same.input]
    have read : Same { m with output := m.output.flush, input := (reader m.input).2 }
        { m' with output := m.output.flush, input := (reader m.input).2 } :=
      { same with input := rfl, output := rfl }
    split
    · exact ⟨rfl, read.store _⟩
    all_goals exact ⟨rfl, { read with }⟩

theorem cleanse_same (same : Same m m') : Same m.cleanse m'.cleanse := by
  unfold cleanse
  rw [same.tape]
  split
  · exact same.store 0
  · exact same

theorem arm_eq (p : Program) (t : Token) (m : Machine) :
    m.arm p t =
      match (m.cursor p).argument m.tape with
      | .error f => (.error f, m)
      | .ok found =>
        let l : Loop := ⟨m.position, found.getD m.tape.value, found.isNone⟩
        (.ok .next,
          { m with loop := some l }.note (.armed t.location l.remaining l.cellDriven)) := by
  unfold arm settle loopHere
  cases (m.cursor p).argument m.tape with
  | error f => rfl
  | ok found => cases found <;> rfl

variable (same : Same m m')
  (argument : (m'.cursor q).argument m.tape = (m.cursor p).argument m.tape)
include same argument

theorem argumentOr_eq (default : Int) :
    (m'.cursor q).argumentOr m'.tape default = (m.cursor p).argumentOr m.tape default := by
  simp only [Cursor.argumentOr, same.tape, argument]

theorem move_agree (d : Int) : Agree (m.move p t d) (m'.move q t d) := by
  apply settle_agree same
  · rw [destination, destination, argumentOr_eq same argument, same.tape]
  · intro index
    exact { same with tape := by simp only [seek, same.tape] }

theorem adjust_agree (op : Operator) : Agree (m.adjust p t op) (m'.adjust q t op) := by
  apply settle_agree same
  · rw [argumentOr_eq same argument, same.tape]
  · exact same.store

theorem scale_agree (op : Operator) : Agree (m.scale p t op) (m'.scale q t op) := by
  unfold scale
  rw [same.tape, argument]
  split
  · exact ⟨rfl, same⟩
  · exact ⟨rfl, same⟩
  · exact settle_agree same rfl same.store

theorem arm_agree : Agree (m.arm p t) (m'.arm q t) := by
  rw [arm_eq, arm_eq, same.tape, argument]
  split
  · exact ⟨rfl, same⟩
  · exact ⟨rfl, { same with tape := rfl }⟩

end

/-- The instructions that neither go anywhere nor touch the loop. -/
theorem dispatch_agree {p q : Program} {t : Token} {m m' : Machine} (same : Same m m')
    (argument : t.kind ≠ .comment →
      (m'.cursor q).argument m.tape = (m.cursor p).argument m.tape)
    (stays : t.kind.jumps = false) (keeps : t.kind.loops = false) :
    Agree (m.dispatch p t) (m'.dispatch q t) := by
  unfold dispatch
  cases kind : t.kind <;> simp only [kind] at argument stays keeps
  case moveLeft | moveRight => exact move_agree same (argument nofun) _
  case increment | decrement => exact adjust_agree same (argument nofun) _
  case multiply | divide | modulo => exact scale_agree same (argument nofun) _
  case printChar | printInt =>
    rw [same.tape]
    exact emit_agree same _
  case readChar | readInt => exact read_agree same _
  case cleanse => exact ⟨rfl, cleanse_same same⟩
  case condEnd => exact ⟨rfl, { same with comparison := rfl }⟩
  case comment => exact ⟨rfl, { same with commented := rfl }⟩
  case printLiteral | condStart | loopEnd => cases stays
  case newline | loopStart => cases keeps
  all_goals exact ⟨rfl, same⟩

end Machine

end HungryTape
