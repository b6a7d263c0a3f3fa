import HungryTape.Proofs.Agreement
import HungryTape.Proofs.Consoles
import HungryTape.Proofs.Widening

/-!
Two machines that run one program side by side. They take the same tokens and come to the same
result, although the second one may have more room on its tape and the consoles may differ, as long
as the consoles answer alike. If the first machine may fail where the second one does not, that is
its excuse, and there the comparison ends.
-/

namespace HungryTape

/-- How two machines that run side by side may differ. What is asked of the consoles is what keeps
the machines together through each of the four things that a program can do to a console. -/
structure Coupling where
  /-- The number of cells that the second machine has behind those of the first -/
  room : Nat
  console : Console → Console → Prop
  /-- A fault of the first machine after which nothing more is asked of the second -/
  excuse : Fault → Console → Console → Prop
  offTape {f : Fault} {c c' : Console} : 0 < room → f.OffTape → excuse f c c'
  lasts {f : Fault} {c c' d' : Console} : excuse f c c' → c'.Becomes d' → excuse f c d'
  flushed {f : Fault} {c c' : Console} : excuse f c c' → excuse f c.flush c'
  note {c c' : Console} (e : Event) : console c c' → console (c.note e) (c'.note e)
  write {c c' : Console} (bytes : List UInt8) : console c c' →
    (c'.output.writeRefusal? bytes = c.output.writeRefusal? bytes ∧
      console (c.write bytes) (c'.write bytes)) ∨
    ∃ message, c.output.writeRefusal? bytes = some message ∧
      excuse (.stream message) (c.write bytes) (c'.write bytes)
  flush {c c' : Console} : console c c' →
    c'.output.flushRefusal? = c.output.flushRefusal? ∧ console c.flush c'.flush
  read {c c' : Console} {reader : Input → Reading × Input} :
    (reader = Input.readChar ∨ reader = Input.readInt) → console c c' →
    ((reader c'.input).1 = (reader c.input).1 ∧ console (c.take reader) (c'.take reader)) ∨
    ∃ message, (reader c.input).1 = .failed message ∧
      excuse (.stream message) (c.take reader) (c'.take reader)

/-- The same streams, with journals that may differ. Only the room on the tape can tell such
machines apart. -/
def Coupling.roomier (room : Nat) : Coupling where
  room
  console c c' := c'.input = c.input ∧ c'.output = c.output
  excuse f _ _ := 0 < room ∧ f.OffTape
  offTape wider offTape := ⟨wider, offTape⟩
  lasts excuse _ := excuse
  flushed excuse := excuse
  note _ same := same
  write bytes same := by simp [Console.write, same]
  flush same := by simp [Console.flush, same]
  read _ same := by simp [Console.take, same]

namespace Machine

structure Coupled (C : Coupling) (m m' : Machine) : Prop where
  console : C.console m.toConsole m'.toConsole
  tape : m'.tape = m.tape.widen C.room
  position : m'.position = m.position
  loop : m'.loop = m.loop
  comparison : m'.comparison = m.comparison
  commented : m'.commented = m.commented

/-- Both came to the same result and left the machines coupled, or the first one failed with an
excuse. -/
inductive Alike {α : Type} (C : Coupling) (r r' : Except Fault α × Machine) : Prop where
  | same (result : r'.1 = r.1) (coupled : Coupled C r.2 r'.2)
  | excused {f : Fault} (failed : r.1 = .error f)
      (excuse : C.excuse f r.2.toConsole r'.2.toConsole)

section

variable {C : Coupling} {p : Program} {t : Token} {m m' : Machine}

theorem Coupled.cursor (h : Coupled C m m') : m'.cursor p = m.cursor p := by
  simp only [Machine.cursor, h.position]

theorem Coupled.value (h : Coupled C m m') : m'.tape.value = m.tape.value := by
  rw [h.tape, Tape.value_widen]

theorem Coupled.starving (h : Coupled C m m') : m'.tape.starving = m.tape.starving := by
  simp only [Tape.starving, h.tape, Tape.stomachValue_widen]

theorem Coupled.note (h : Coupled C m m') (e : Event) : Coupled C (m.note e) (m'.note e) :=
  { h with console := C.note e h.console }

theorem Coupled.advance (h : Coupled C m m') : Coupled C m.advance m'.advance :=
  { h with position := by simp only [Machine.advance, h.position] }

theorem Coupled.jump (h : Coupled C m m') (position : Nat) :
    Coupled C { m with position } { m' with position } :=
  { h with position := rfl }

theorem Coupled.setLoop (h : Coupled C m m') (loop : Option Loop) :
    Coupled C { m with loop } { m' with loop } :=
  { h with loop := rfl }

theorem Coupled.store (h : Coupled C m m') (valid : m.tape.Valid) (v : Int) :
    Coupled C (m.store v) (m'.store v) :=
  { h with tape := by simp only [Machine.store, h.tape, valid.store_widen] }

theorem settle_alike {α : Type} {decision decision' : Except Fault α}
    {act : Machine → α → Machine} (h : Coupled C m m')
    (decisions : Widened C.room decision decision')
    (acts : ∀ a, Coupled C (act m a) (act m' a)) :
    Alike C (m.settle decision act) (m'.settle decision' act) := by
  rcases decisions with rfl | ⟨wider, f, rfl, offTape⟩
  · cases decision' with
    | error f => exact .same rfl h
    | ok a => exact .same rfl (acts a)
  · exact .excused rfl (C.offTape wider offTape)

theorem emit_alike (h : Coupled C m m') (bytes : List UInt8) :
    Alike C (m.emit bytes) (m'.emit bytes) := by
  rcases C.write bytes h.console with ⟨refusal, written⟩ | ⟨message, refused, excuse⟩
  · unfold emit
    rw [refusal]
    split <;> exact .same rfl { h with console := written }
  · have failed : (m.emit bytes).1 = .error (.stream message) := by simp only [emit, refused]
    refine .excused failed ?_
    rwa [emit_snd, emit_snd]

theorem read_alike {reader : Input → Reading × Input} (h : Coupled C m m')
    (valid : m.tape.Valid) (reads : reader = Input.readChar ∨ reader = Input.readInt) :
    Alike C (m.read reader t) (m'.read reader t) := by
  obtain ⟨refusal, flushed⟩ := C.flush h.console
  unfold read
  rw [refusal]
  split
  · exact .same rfl h
  · dsimp only
    rcases C.read reads flushed with ⟨reading, taken⟩ | ⟨message, failed, excuse⟩
    · have reading : (reader m'.input).1 = (reader m.input).1 := reading
      have taken : Coupled C { m with output := m.output.flush, input := (reader m.input).2 }
          { m' with output := m'.output.flush, input := (reader m'.input).2 } :=
        { h with console := taken }
      have event : Event.exhausted t.location m'.tape.current m'.tape.value =
          .exhausted t.location m.tape.current m.tape.value := by
        rw [h.value, h.tape]
        rfl
      rw [reading, event]
      split
      · exact .same rfl (taken.store valid _)
      · exact .same rfl (taken.note _)
      · exact .same rfl taken
      · exact .same rfl taken
    · have failed : (reader m.input).1 = .failed message := failed
      simp only [failed]
      refine .excused rfl ?_
      split
      · exact excuse
      · exact C.lasts excuse (.note .refl _)
      · exact excuse
      · exact excuse

theorem destination_widened (h : Coupled C m m') (d : Int) :
    Widened C.room (m.destination p t d) (m'.destination p t d) := by
  unfold destination
  rw [h.cursor, h.tape]
  apply (Cursor.argumentOr_widened C.room (m.cursor p) m.tape 1).bind
  intro distance
  exact Tape.target_widened C.room m.tape (d * distance) t.location

theorem loopHere_widened (h : Coupled C m m') :
    Widened C.room (m.loopHere p) (m'.loopHere p) := by
  unfold loopHere
  rw [h.cursor, h.tape, h.position]
  apply (Cursor.argument_widened C.room (m.cursor p) m.tape).bind
  intro found
  rw [Tape.value_widen]
  exact .refl _

theorem move_alike (h : Coupled C m m') (d : Int) : Alike C (m.move p t d) (m'.move p t d) := by
  apply settle_alike h (destination_widened h d)
  intro index
  exact { h with tape := by simp only [seek, h.tape]; rfl }

theorem adjust_alike (h : Coupled C m m') (valid : m.tape.Valid) (op : Operator) :
    Alike C (m.adjust p t op) (m'.adjust p t op) := by
  apply settle_alike h _ (h.store valid)
  rw [h.cursor, h.value, h.tape]
  apply (Cursor.argumentOr_widened C.room (m.cursor p) m.tape 1).bind
  intro amount
  exact .refl _

theorem scale_alike (h : Coupled C m m') (valid : m.tape.Valid) (op : Operator) :
    Alike C (m.scale p t op) (m'.scale p t op) := by
  unfold scale
  rw [h.cursor, h.value, h.tape]
  rcases Cursor.argument_widened C.room (m.cursor p) m.tape with same | ⟨wider, f, failed, offTape⟩
  · rw [same]
    split
    · exact .same rfl h
    · exact .same rfl h
    · exact settle_alike h (.refl _) (h.store valid)
  · simp only [failed]
    exact .excused rfl (C.offTape wider offTape)

theorem cleanse_coupled (h : Coupled C m m') (valid : m.tape.Valid) :
    Coupled C m.cleanse m'.cleanse := by
  unfold cleanse
  rw [h.value]
  split
  · exact h.store valid 0
  · exact h

theorem arm_alike (h : Coupled C m m') : Alike C (m.arm p t) (m'.arm p t) := by
  apply settle_alike h (loopHere_widened h)
  intro loop
  exact (h.setLoop loop).note _

theorem newLine_alike (h : Coupled C m m') (valid : m.tape.Valid) :
    Alike C (m.newLine p t) (m'.newLine p t) := by
  apply arm_alike
  exact { h with tape := by simp only [h.tape, valid.feed_widen] }

theorem openLoop_alike (h : Coupled C m m') : Alike C (m.openLoop p t) (m'.openLoop p t) := by
  unfold openLoop
  rw [h.cursor]
  split
  · exact .same rfl h
  · exact arm_alike h

theorem rewind_alike (h : Coupled C m m') (l : Loop) : Alike C (m.rewind l) (m'.rewind l) := by
  unfold rewind
  split
  · exact .same rfl ((h.jump l.start).note _)
  · exact .same rfl (h.setLoop none)

theorem closeLoop_alike (h : Coupled C m m') (valid : m.tape.Valid) :
    Alike C (m.closeLoop t) (m'.closeLoop t) := by
  unfold closeLoop
  rw [h.loop]
  split
  · exact .same rfl h
  · split
    · exact .same rfl (h.setLoop none)
    · dsimp only
      rename_i l _ _
      have lowered := h.setLoop (some { l with remaining := l.remaining - 1 })
      rw [h.value]
      split
      · split
        · exact rewind_alike (lowered.store valid _) _
        · exact .same rfl lowered
      · exact rewind_alike lowered _

theorem branch_alike (h : Coupled C m m') : Alike C (m.branch p t) (m'.branch p t) := by
  unfold branch
  rw [h.cursor, h.tape]
  rcases Cursor.condition_widened C.room (m.cursor p) m.tape t.location with
    same | ⟨wider, f, failed, offTape⟩
  · rw [same]
    split
    · exact .same rfl h
    · rename_i comparison _
      have compared : Coupled C { m with comparison := some comparison }
          { m' with comparison := some comparison } := { h with comparison := rfl }
      have noted := compared.note (.compared comparison t.location)
      rw [← h.tape]
      dsimp only
      rw [noted.cursor]
      split
      · exact .same rfl (noted.jump _)
      · exact .same rfl noted
  · simp only [failed]
    exact .excused rfl (C.offTape wider offTape)

theorem printLiteral_alike (h : Coupled C m m') :
    Alike C (m.printLiteral p) (m'.printLiteral p) := by
  unfold printLiteral
  rw [h.cursor]
  split
  · exact .same rfl h
  · split
    · exact emit_alike h _
    · rename_i next _ _
      have emitted := emit_alike h ((next.first?.map Text.charBytes).getD [])
      generalize m.emit ((next.first?.map Text.charBytes).getD []) = r at emitted ⊢
      generalize m'.emit ((next.first?.map Text.charBytes).getD []) = r' at emitted ⊢
      cases emitted with
      | same result coupled =>
        rcases r with ⟨f | flow, n⟩ <;> rcases r' with ⟨f' | flow', n'⟩ <;> cases result
        · exact .same rfl coupled
        · exact .same rfl coupled.advance
      | excused failed excuse =>
        rcases r with ⟨f | flow, n⟩ <;> cases failed
        rcases r' with ⟨f' | flow', n'⟩ <;> exact .excused rfl excuse

theorem dispatch_alike (h : Coupled C m m') (valid : m.tape.Valid) :
    Alike C (m.dispatch p t) (m'.dispatch p t) := by
  unfold dispatch
  cases t.kind
  case moveLeft | moveRight => exact move_alike h _
  case increment | decrement => exact adjust_alike h valid _
  case multiply | divide | modulo => exact scale_alike h valid _
  case printChar | printInt =>
    rw [h.value]
    exact emit_alike h _
  case printLiteral => exact printLiteral_alike h
  case readChar => exact read_alike h valid (.inl rfl)
  case readInt => exact read_alike h valid (.inr rfl)
  case cleanse => exact .same rfl (cleanse_coupled h valid)
  case newline => exact newLine_alike h valid
  case loopStart => exact openLoop_alike h
  case loopEnd => exact closeLoop_alike h valid
  case condStart => exact branch_alike h
  case condEnd => exact .same rfl { h with comparison := rfl }
  case comment => exact .same rfl { h with commented := rfl }
  all_goals exact .same rfl h

/-- One turn of both machines. -/
inductive Turn (C : Coupling) : Progress → Progress → Prop where
  | running {k k' : Machine} (coupled : Coupled C k k') : Turn C (.running k) (.running k')
  | finished {result : Except Fault Outcome} {last last' : Machine}
      (coupled : Coupled C last last') : Turn C (.finished result last) (.finished result last')
  | excused {f : Fault} {last : Machine} {progress' : Progress}
      (excuse : C.excuse f last.toConsole progress'.machine.toConsole) :
      Turn C (.finished (.error f) last) progress'

theorem starve_turn (h : Coupled C m m') (location : Location) :
    Turn C (m.starve location) (m'.starve location) := by
  have noted := C.note (.starved m.tape.stomach location) h.console
  have stomach : m'.tape.stomach = m.tape.stomach := by rw [h.tape]; rfl
  rw [starve_eq, starve_eq, stomach]
  rcases C.write farewell noted with ⟨refusal, written⟩ | ⟨message, refused, excuse⟩
  · have refusal : m'.output.writeRefusal? farewell = m.output.writeRefusal? farewell := refusal
    rw [refusal]
    exact .finished { h with console := written }
  · have refused : m.output.writeRefusal? farewell = some message := refused
    rw [refused]
    exact .excused excuse

theorem settled_turn {r r' : Except Fault Flow × Machine} (h : Alike C r r') :
    Turn C (settled t r) (settled t r') := by
  obtain ⟨result, n⟩ := r
  cases h with
  | same same coupled =>
    obtain ⟨result', n'⟩ := r'
    cases (same : result' = result)
    cases result with
    | error f => exact .finished coupled
    | ok flow =>
      cases flow with
      | halt => exact .finished (coupled.note _)
      | skip => exact .running coupled.advance
      | next =>
        have starving : n'.tape.starving = n.tape.starving := coupled.starving
        simp only [settled, starving]
        split
        · exact starve_turn coupled t.location
        · exact .running coupled.advance
  | excused failed excuse =>
    cases (failed : result = _)
    exact .excused (C.lasts excuse (settled_becomes t r'))

theorem step_turn (h : Coupled C m m') (valid : m.tape.Valid) :
    Turn C (m.step p) (m'.step p) := by
  unfold step
  rw [h.position, h.commented]
  split
  · exact .finished h
  · split
    · exact .running (Coupled.advance { h with commented := rfl })
    · exact settled_turn (dispatch_alike h valid)

end

section

variable {C : Coupling} {p : Program}

/-- As long as the first machine goes on, so does the second. -/
theorem after_coupled {m m' k : Machine} {n : Nat} (h : Coupled C m m') (valid : m.tape.Valid)
    (reached : m.after p n = some k) : ∃ k', m'.after p n = some k' ∧ Coupled C k k' := by
  induction n generalizing k with
  | zero =>
    cases reached
    exact ⟨m', rfl, h⟩
  | succ n ih =>
    obtain ⟨a, before, running⟩ := after_succ_iff.mp reached
    obtain ⟨a', before', coupled⟩ := ih before
    have turn := step_turn (p := p) coupled ((after_keeps before).valid valid)
    generalize running' : a'.step p = progress at turn
    rw [running] at turn
    cases turn with
    | @running _ k' coupled => exact ⟨k', after_succ_iff.mpr ⟨a', before', running'⟩, coupled⟩

theorem execute_alike {m m' : Machine} (h : Coupled C m m') (valid : m.tape.Valid) :
    Alike C (m.execute p) (m'.execute p) := by
  fun_induction execute p m generalizing m' with
  | case1 m k running ih =>
    have turn := step_turn (p := p) h valid
    generalize running' : m'.step p = progress at turn
    rw [running] at turn
    cases turn with
    | running coupled =>
      rw [execute_of_running running']
      exact ih coupled ((step_running running).keeps.valid valid)
  | case2 m result last finished =>
    have turn := step_turn (p := p) h valid
    have onward := machine_becomes p m'
    generalize finished' : m'.step p = progress at turn onward
    rw [finished] at turn
    cases turn with
    | finished coupled =>
      rw [execute_of_finished finished']
      exact .same rfl coupled
    | excused excuse => exact .excused rfl (C.lasts excuse onward)

theorem run_alike {m m' : Machine} (h : Coupled C (m.started p) (m'.started p))
    (valid : m.tape.Valid) : Alike C (m.run p) (m'.run p) := by
  have executed := execute_alike (p := p) h valid
  unfold started at executed
  unfold run
  generalize (m.note (.executing p.size m.tape.capacity)).execute p = r at executed ⊢
  generalize (m'.note (.executing p.size m'.tape.capacity)).execute p = r' at executed ⊢
  obtain ⟨result, last⟩ := r
  obtain ⟨result', last'⟩ := r'
  cases executed with
  | same same coupled =>
    cases (same : result' = result)
    obtain ⟨refusal, flushed⟩ := C.flush coupled.console
    have refusal : last'.output.flushRefusal? = last.output.flushRefusal? := refusal
    dsimp only
    rw [refusal]
    exact .same rfl { coupled with console := flushed }
  | excused failed excuse =>
    cases (failed : result = _)
    exact .excused rfl (C.flushed (C.lasts excuse (.flush .refl)))

end

end Machine

end HungryTape
