import HungryTape.Machine.Halting

namespace HungryTape

def Kind.prints : Kind → Bool
  | printChar | printInt | printLiteral => true
  | _ => false

theorem Kind.traceless_of_prints {kind : Kind} (h : kind.prints = true) :
    kind ∉ [.newline, .loopEnd, .condStart] := by
  intro mem
  cases kind <;> simp [prints] at h mem

namespace Fault

variable {α β : Type} {x : Except Fault α} {f : Fault}

theorem ok_of_map {g : α → β} {b : β} (h : x.map g = .ok b) : ∃ a, x = .ok a ∧ g a = b := by
  cases x with
  | error e => cases h
  | ok a =>
    cases h
    exact ⟨a, rfl, rfl⟩

theorem error_of_map {g : α → β} (h : x.map g = .error f) : x = .error f := by
  cases x with
  | error e =>
    cases h
    rfl
  | ok a => cases h

theorem ok_of_bind {g : α → Except Fault β} {b : β} (h : x >>= g = .ok b) :
    ∃ a, x = .ok a ∧ g a = .ok b := by
  cases x with
  | error e => cases h
  | ok a => exact ⟨a, rfl, h⟩

theorem error_of_bind {g : α → Except Fault β} (h : x >>= g = .error f) :
    x = .error f ∨ ∃ a, x = .ok a ∧ g a = .error f := by
  cases x with
  | error e =>
    cases h
    exact .inl rfl
  | ok a => exact .inr ⟨a, rfl, h⟩

end Fault

namespace Machine

/-- What a failed instruction leaves behind. -/
inductive Failed (p : Program) (t : Token) (m : Machine) : Fault → Machine → Prop where
  | untouched {f : Fault} (kind : t.kind ∉ [.newline, .loopEnd, .condStart]) : Failed p t m f m
  | fed {f : Fault} (kind : t.kind = .newline) : Failed p t m f { m with tape := m.tape.feed }
  | unpaid {f : Fault} {l : Loop} (kind : t.kind = .loopEnd) (active : m.loop = some l) :
      Failed p t m f { m with loop := some { l with remaining := l.remaining - 1 } }
  | malformed {f : Fault} (kind : t.kind = .condStart)
      (header : ∀ c, (m.cursor p).condition m.tape t.location ≠ .ok c) : Failed p t m f m
  | stranded {f : Fault} {c : Comparison} (kind : t.kind = .condStart)
      (header : (m.cursor p).condition m.tape t.location = .ok c)
      (target : (m.cursor p).find? c.resume = none) :
      Failed p t m f ({ m with comparison := some c }.note (.compared c t.location))
  | unread {f : Fault} {input : Input} (kind : t.kind = .readChar ∨ t.kind = .readInt) :
      Failed p t m f { m with output := m.output.flush, input }
  | refused {message : String} {bytes : List UInt8} (kind : t.kind.prints = true)
      (refusal : m.output.writeRefusal? bytes = some message) :
      Failed p t m (.stream message) { m with output := m.output.write bytes }

theorem settle_error {α : Type} {m m' : Machine} {decision : Except Fault α}
    {act : Machine → α → Machine} {f : Fault} (h : m.settle decision act = (.error f, m')) :
    m' = m := by
  cases decision with
  | error g =>
    simp only [settle, Prod.mk.injEq] at h
    exact h.2.symm
  | ok a => simp [settle] at h

theorem scale_error {p : Program} {t : Token} {op : Operator} {m m' : Machine} {f : Fault}
    (h : m.scale p t op = (.error f, m')) : m' = m := by
  unfold scale at h
  split at h
  · simp only [Prod.mk.injEq] at h
    exact h.2.symm
  · simp at h
  · exact settle_error h

theorem emit_error {m m' : Machine} {bytes : List UInt8} {f : Fault}
    (h : m.emit bytes = (.error f, m')) :
    ∃ message, m.output.writeRefusal? bytes = some message ∧ f = .stream message ∧
      m' = { m with output := m.output.write bytes } := by
  unfold emit at h
  split at h
  · simp at h
  · rename_i message refusal
    simp only [Prod.mk.injEq, Except.error.injEq] at h
    obtain ⟨rfl, rfl⟩ := h
    exact ⟨message, refusal, rfl, rfl⟩

theorem emit_failed {p : Program} {t : Token} {m m' : Machine} {bytes : List UInt8} {f : Fault}
    (h : m.emit bytes = (.error f, m')) (prints : t.kind.prints = true) : Failed p t m f m' := by
  obtain ⟨message, refusal, rfl, rfl⟩ := emit_error h
  exact .refused prints refusal

theorem printLiteral_failed {p : Program} {t : Token} {m m' : Machine} {f : Fault}
    (h : m.printLiteral p = (.error f, m')) (prints : t.kind.prints = true) :
    Failed p t m f m' := by
  unfold printLiteral at h
  split at h
  · simp at h
  · split at h
    · exact emit_failed h prints
    · split at h
      · simp at h
      · rename_i emitted
        simp only [Prod.mk.injEq, Except.error.injEq] at h
        obtain ⟨rfl, rfl⟩ := h
        exact emit_failed emitted prints

/-- A refused flush is found out before anything is read. -/
theorem read_failed {p : Program} {reader : Input → Reading × Input} {t : Token} {m m' : Machine}
    {f : Fault} (h : m.read reader t = (.error f, m'))
    (reads : t.kind = .readChar ∨ t.kind = .readInt) : Failed p t m f m' := by
  unfold read at h
  split at h
  · simp only [Prod.mk.injEq] at h
    obtain ⟨-, rfl⟩ := h
    apply Failed.untouched
    rcases reads with kind | kind <;> simp [kind]
  · dsimp only at h
    split at h <;> simp only [Prod.mk.injEq, reduceCtorEq, false_and] at h <;>
      · obtain ⟨-, rfl⟩ := h
        exact .unread reads

theorem closeLoop_failed {p : Program} {t : Token} {m m' : Machine} {f : Fault}
    (h : m.closeLoop t = (.error f, m')) (kind : t.kind = .loopEnd) : Failed p t m f m' := by
  have rewind_ok {l : Loop} {n : Machine} : n.rewind l ≠ (.error f, m') := by
    unfold rewind
    split <;> simp
  unfold closeLoop at h
  split at h
  · simp at h
  · rename_i l active
    split at h
    · simp at h
    · dsimp only at h
      split at h
      · split at h
        · exact absurd h rewind_ok
        · simp only [Prod.mk.injEq] at h
          obtain ⟨-, rfl⟩ := h
          exact .unpaid kind active
      · exact absurd h rewind_ok

theorem branch_failed {p : Program} {t : Token} {m m' : Machine} {f : Fault}
    (h : m.branch p t = (.error f, m')) (kind : t.kind = .condStart) : Failed p t m f m' := by
  unfold branch at h
  split at h
  · rename_i header
    simp only [Prod.mk.injEq] at h
    obtain ⟨-, rfl⟩ := h
    exact .malformed kind (by simp [header])
  · rename_i c header
    dsimp only at h
    split at h
    · simp at h
    · rename_i target
      simp only [Prod.mk.injEq] at h
      obtain ⟨-, rfl⟩ := h
      exact .stranded kind header target

theorem dispatch_failed {p : Program} {t : Token} {m m' : Machine} {f : Fault}
    (h : m.dispatch p t = (.error f, m')) : Failed p t m f m' := by
  have untouched (kind : t.kind ∉ [.newline, .loopEnd, .condStart]) (same : m' = m) :
      Failed p t m f m' := by
    subst same
    exact .untouched kind
  unfold dispatch at h
  cases kind : t.kind <;> simp only [kind] at h untouched
  case moveLeft | moveRight | increment | decrement => exact untouched (by decide) (settle_error h)
  case multiply | divide | modulo => exact untouched (by decide) (scale_error h)
  case printChar | printInt => exact emit_failed h (kind ▸ rfl)
  case printLiteral => exact printLiteral_failed h (kind ▸ rfl)
  case readChar => exact read_failed h (.inl kind)
  case readInt => exact read_failed h (.inr kind)
  case newline =>
    -- the food is gone before the argument is looked at
    unfold newLine arm at h
    obtain rfl := settle_error h
    exact .fed kind
  case loopStart =>
    unfold openLoop at h
    split at h
    · simp only [Prod.mk.injEq] at h
      exact untouched (by decide) h.2.symm
    · exact untouched (by decide) (settle_error h)
  case loopEnd => exact closeLoop_failed h kind
  case condStart => exact branch_failed h kind
  all_goals simp at h

/-- A failed instruction leaves the position and the comment flag alone, and every other part but
for one trace: the food of a newline, the pass of a `]`, the comparison of a `{` that has nowhere
to go on, the bytes taken by a read, and the part of its own refused write that fitted. -/
theorem failed_instruction_almost_atomic {p : Program} {t : Token} {m m' : Machine} {f : Fault}
    (failed : m.dispatch p t = (.error f, m')) :
    m'.position = m.position ∧ m'.commented = m.commented ∧
    (t.kind ≠ .newline → m'.tape = m.tape) ∧
    (t.kind = .newline → m'.tape = { m.tape with
      cells := m.tape.cells.setIfInBounds m.tape.stomach
        (max (-2147483648) (m.tape.stomachValue - 1)) }) ∧
    (t.kind ≠ .loopEnd → m'.loop = m.loop) ∧
    (t.kind = .loopEnd → ∃ l, m.loop = some l ∧
      m'.loop = some { l with remaining := l.remaining - 1 }) ∧
    ((t.kind = .condStart → ∀ c, (m.cursor p).condition m.tape t.location ≠ .ok c) →
      m'.comparison = m.comparison) ∧
    (∀ c, t.kind = .condStart → (m.cursor p).condition m.tape t.location = .ok c →
      (m.cursor p).find? c.resume = none ∧ m'.comparison = some c) ∧
    (m'.input ≠ m.input → t.kind = .readChar ∨ t.kind = .readInt) ∧
    (m'.output.written ≠ m.output.written → t.kind.prints = true ∧
      ∃ bytes message, m.output.writeRefusal? bytes = some message ∧ f = .stream message ∧
        m'.output = m.output.write bytes) := by
  cases dispatch_failed failed with
  | untouched kind =>
    obtain ⟨line, pass, header⟩ := by simpa using kind
    simp [line, pass, header]
  | fed kind => simp [kind, Tape.feed, Cell.least]
  | unpaid kind active => simp [kind, active]
  | malformed kind header => simp [kind, header]
  | stranded kind header target => simp [kind, header, target, note]
  | unread kind => rcases kind with kind | kind <;> simp [kind, Output.flush_written]
  | @refused message bytes kind refusal =>
    obtain ⟨line, pass, header⟩ := by simpa using Kind.traceless_of_prints kind
    refine ⟨rfl, rfl, fun _ => rfl, fun newline => absurd newline line, fun _ => rfl,
      fun loopEnd => absurd loopEnd pass, fun _ => rfl, fun c condStart => absurd condStart header,
      fun changed => absurd rfl changed, fun _ => ?_⟩
    exact ⟨kind, bytes, message, refusal, rfl, rfl⟩

/-- A newline whose argument is malformed has taken its food, and a `]` that cannot lower its cell
has used up a pass of its loop. -/
theorem failed_instruction_almost_atomic_line_and_pass :
    let idle := ofTape ⟨#[-2147483648, 5], 0, 1⟩ { input := { rest := [] } }
    let m := { idle with loop := some ⟨0, 3, true⟩ }
    let line : Token := ⟨.newline, "\n", ⟨1, 1⟩⟩
    let pass : Token := ⟨.loopEnd, "]", ⟨1, 1⟩⟩
    (∃ f m', m.dispatch #[line, ⟨.parenOpen, "(", ⟨2, 1⟩⟩, ⟨.mention, "$", ⟨2, 2⟩⟩] line =
        (.error f, m') ∧
      m'.tape = ⟨#[-2147483648, 4], 0, 1⟩ ∧ m'.loop = m.loop) ∧
    ∃ f m' l, m.dispatch #[pass] pass = (.error f, m') ∧ m'.tape = m.tape ∧
      m.loop = some l ∧ m'.loop = some { l with remaining := l.remaining - 1 } := by
  intro idle m line pass
  constructor
  · have failed : m.dispatch #[line, ⟨.parenOpen, "(", ⟨2, 1⟩⟩, ⟨.mention, "$", ⟨2, 2⟩⟩] line =
        (.error _, _) := rfl
    obtain ⟨-, -, -, fed, loop, -⟩ := failed_instruction_almost_atomic failed
    exact ⟨_, _, failed, fed rfl, loop nofun⟩
  · have failed : m.dispatch #[pass] pass = (.error _, _) := rfl
    obtain ⟨-, -, tape, -, -, spent, -⟩ := failed_instruction_almost_atomic failed
    obtain ⟨l, active, lowered⟩ := spent rfl
    exact ⟨_, _, l, failed, tape nofun, active, lowered⟩

end Machine

end HungryTape
