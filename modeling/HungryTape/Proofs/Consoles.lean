import HungryTape.Proofs.Turns

namespace HungryTape

namespace Output

theorem flush_writeLimit (o : Output) : o.flush.writeLimit = o.writeLimit := by
  unfold flush
  split <;> rfl

theorem flush_flushLimit (o : Output) : o.flush.flushLimit = o.flushLimit := by
  unfold flush
  split <;> rfl

theorem flushRefusal?_of_unlimited {o : Output} (h : o.flushLimit = none) :
    o.flushRefusal? = none := by
  simp [flushRefusal?, h]

theorem accepted_eq {o : Output} {bytes : List UInt8} (room : o.writeRefusal? bytes = none) :
    o.accepted bytes = bytes := by
  unfold writeRefusal? at room
  unfold accepted
  cases limit : o.writeLimit with
  | none => rfl
  | some limit =>
    simp only [limit] at room ⊢
    split at room
    · rename_i fits
      exact List.take_of_length_le fits
    · simp at room

theorem written_write {o : Output} {bytes : List UInt8} (room : o.writeRefusal? bytes = none) :
    (o.write bytes).written.toList = o.written.toList ++ bytes := by
  simp [write, accepted_eq room]

end Output

namespace Console

def note (c : Console) (e : Event) : Console :=
  { c with journal := c.journal.note e }

def write (c : Console) (bytes : List UInt8) : Console :=
  { c with output := c.output.write bytes }

def flush (c : Console) : Console :=
  { c with output := c.output.flush }

def take (reader : Input → Reading × Input) (c : Console) : Console :=
  { c with input := (reader c.input).2 }

/-- What a console can go through. -/
inductive Becomes (c : Console) : Console → Prop where
  | refl : Becomes c c
  | note {d : Console} (h : Becomes c d) (e : Event) : Becomes c (d.note e)
  | write {d : Console} (h : Becomes c d) (bytes : List UInt8) : Becomes c (d.write bytes)
  | flush {d : Console} (h : Becomes c d) : Becomes c d.flush
  | take {d : Console} {reader : Input → Reading × Input} (h : Becomes c d)
      (reads : reader = Input.readChar ∨ reader = Input.readInt) : Becomes c (d.take reader)

theorem Becomes.trans {a b c : Console} (h : a.Becomes b) (h' : b.Becomes c) : a.Becomes c := by
  induction h' with
  | refl => exact h
  | note _ e ih => exact ih.note e
  | write _ bytes ih => exact ih.write bytes
  | flush _ ih => exact ih.flush
  | take _ reads ih => exact ih.take reads

end Console

/-- The machine that a token leaves behind, whether the program goes on or not. -/
def Progress.machine : Progress → Machine
  | .running m => m
  | .finished _ m => m

namespace Machine

open Console (Becomes)

theorem settle_becomes {α : Type} {m : Machine} {decision : Except Fault α}
    {act : Machine → α → Machine} (acts : ∀ a, m.toConsole.Becomes (act m a).toConsole) :
    m.toConsole.Becomes (m.settle decision act).2.toConsole := by
  cases decision with
  | error f => exact .refl
  | ok a => exact acts a

theorem emit_becomes (m : Machine) (bytes : List UInt8) :
    m.toConsole.Becomes (m.emit bytes).2.toConsole := by
  rw [emit_snd]
  exact Becomes.refl.write bytes

theorem scale_becomes (p : Program) (t : Token) (op : Operator) (m : Machine) :
    m.toConsole.Becomes (m.scale p t op).2.toConsole := by
  unfold scale
  split
  · exact .refl
  · exact .refl
  · exact settle_becomes fun _ => .refl

theorem cleanse_becomes (m : Machine) : m.toConsole.Becomes m.cleanse.toConsole := by
  unfold cleanse
  split <;> exact .refl

theorem read_becomes {reader : Input → Reading × Input}
    (reads : reader = Input.readChar ∨ reader = Input.readInt) (t : Token) (m : Machine) :
    m.toConsole.Becomes (m.read reader t).2.toConsole := by
  unfold read
  split
  · exact .refl
  · have taken : m.toConsole.Becomes (m.toConsole.flush.take reader) :=
      (Becomes.refl.flush).take reads
    dsimp only
    split
    · exact taken
    · exact taken.note _
    · exact taken
    · exact taken

theorem arm_becomes (p : Program) (t : Token) (m : Machine) :
    m.toConsole.Becomes (m.arm p t).2.toConsole :=
  settle_becomes fun _ => Becomes.refl.note _

theorem openLoop_becomes (p : Program) (t : Token) (m : Machine) :
    m.toConsole.Becomes (m.openLoop p t).2.toConsole := by
  unfold openLoop
  split
  · exact .refl
  · exact arm_becomes p t m

theorem rewind_becomes {m n : Machine} (same : n.toConsole = m.toConsole) (l : Loop) :
    m.toConsole.Becomes (n.rewind l).2.toConsole := by
  rw [← same]
  unfold rewind
  split
  · exact Becomes.refl.note _
  · exact .refl

theorem closeLoop_becomes (t : Token) (m : Machine) :
    m.toConsole.Becomes (m.closeLoop t).2.toConsole := by
  unfold closeLoop
  split
  · exact .refl
  · split
    · exact .refl
    · dsimp only
      split
      · split
        · apply rewind_becomes
          rfl
        · exact .refl
      · apply rewind_becomes
        rfl

theorem branch_becomes (p : Program) (t : Token) (m : Machine) :
    m.toConsole.Becomes (m.branch p t).2.toConsole := by
  unfold branch
  split
  · exact .refl
  · dsimp only
    split <;> exact Becomes.refl.note _

theorem printLiteral_becomes (p : Program) (m : Machine) :
    m.toConsole.Becomes (m.printLiteral p).2.toConsole := by
  unfold printLiteral
  split
  · exact .refl
  · rename_i next _
    split
    · exact emit_becomes m _
    · have emitted := emit_becomes m ((next.first?.map Text.charBytes).getD [])
      split <;>
        · rename_i result
          rw [result] at emitted
          exact emitted

theorem dispatch_becomes (p : Program) (t : Token) (m : Machine) :
    m.toConsole.Becomes (m.dispatch p t).2.toConsole := by
  unfold dispatch
  cases t.kind
  case moveLeft | moveRight | increment | decrement => exact settle_becomes fun _ => .refl
  case multiply | divide | modulo => exact scale_becomes p t _ m
  case printChar | printInt => exact emit_becomes m _
  case printLiteral => exact printLiteral_becomes p m
  case readChar => exact read_becomes (.inl rfl) t m
  case readInt => exact read_becomes (.inr rfl) t m
  case cleanse => exact cleanse_becomes m
  case newline => exact arm_becomes p t { m with tape := m.tape.feed }
  case loopStart => exact openLoop_becomes p t m
  case loopEnd => exact closeLoop_becomes t m
  case condStart => exact branch_becomes p t m
  all_goals exact .refl

theorem settled_becomes (t : Token) (r : Except Fault Flow × Machine) :
    r.2.toConsole.Becomes (settled t r).machine.toConsole := by
  obtain ⟨f | flow, m⟩ := r
  · exact .refl
  · cases flow with
    | halt => exact Becomes.refl.note _
    | skip => exact .refl
    | next =>
      unfold settled
      dsimp only
      split
      · rw [starve_eq]
        exact (Becomes.refl.note _).write _
      · exact .refl

theorem step_becomes (p : Program) (m : Machine) :
    m.toConsole.Becomes (m.step p).machine.toConsole := by
  rcases step_cases p m with ⟨-, completed⟩ | ⟨t, -, -, ignored⟩ | ⟨t, -, acts⟩
  · rw [completed]
    exact .refl
  · rw [ignored]
    exact .refl
  · rw [acts]
    exact (dispatch_becomes p t m).trans (settled_becomes t _)

theorem execute_becomes (p : Program) (m : Machine) :
    m.toConsole.Becomes (m.execute p).2.toConsole := by
  fun_induction execute p m with
  | case1 m k running ih =>
    have stepped := step_becomes p m
    rw [running] at stepped
    exact stepped.trans ih
  | case2 m result last finished =>
    have stepped := step_becomes p m
    rwa [finished] at stepped

theorem machine_becomes (p : Program) (m : Machine) :
    (m.step p).machine.toConsole.Becomes (m.execute p).2.toConsole := by
  cases stepped : m.step p with
  | running k =>
    rw [execute_of_running stepped]
    exact execute_becomes p k
  | finished result last =>
    rw [execute_of_finished stepped]
    exact .refl

theorem run_becomes (p : Program) (m : Machine) :
    m.toConsole.Becomes (m.run p).2.toConsole :=
  ((Becomes.refl.note _).trans (execute_becomes p (m.started p))).flush

end Machine

end HungryTape
