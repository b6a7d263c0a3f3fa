import HungryTape.Machine.Run

namespace HungryTape

/-- The tokens that do nothing by themselves. -/
def Kind.inert : Kind → Bool
  | function | identifier | parenOpen | parenClose | number | greater | less | equal
  | greaterOrEqual | lessOrEqual | notEqual | mention | escape | unknown => true
  | _ => false

namespace Machine

def next? (p : Program) (m : Machine) : Option Machine :=
  match m.step p with
  | .running m => some m
  | .finished _ _ => none

/-- The machine after `n` tokens, or nothing if the program has ended by then. -/
def after (p : Program) (m : Machine) : Nat → Option Machine
  | 0 => some m
  | n + 1 => (m.after p n).bind (next? p)

theorem next?_eq_some_iff {p : Program} {m m' : Machine} :
    m.next? p = some m' ↔ m.step p = .running m' := by
  unfold next?
  cases m.step p <;> simp

theorem next?_eq_none_of_finished {p : Program} {m m' : Machine} {result : Except Fault Outcome}
    (h : m.step p = .finished result m') : m.next? p = none := by
  simp [next?, h]

theorem step_of_taken {p : Program} {m : Machine} {t : Token} (taken : m.taken? p = some t) :
    m.step p = settled t (m.dispatch p t) := by
  obtain ⟨live, here⟩ := taken?_eq_some_iff.mp taken
  simp [step, live, here]

theorem step_of_inert {p : Program} {m : Machine} {t : Token} (taken : m.taken? p = some t)
    (inert : t.kind.inert = true) (fed : m.tape.starving = false) :
    m.step p = .running m.advance := by
  have idle : m.dispatch p t = (.ok .next, m) := by
    unfold dispatch
    cases kind : t.kind <;> simp only [kind, Kind.inert, Bool.false_eq_true] at inert
    all_goals rfl
  rw [step_of_taken taken, idle]
  simp only [settled, fed, Bool.false_eq_true, if_false]

theorem after_succ_iff {p : Program} {m m' : Machine} {n : Nat} :
    m.after p (n + 1) = some m' ↔ ∃ k, m.after p n = some k ∧ k.step p = .running m' := by
  simp [after, Option.bind_eq_some_iff, next?_eq_some_iff]

theorem after_add (p : Program) (m : Machine) (i j : Nat) :
    m.after p (i + j) = (m.after p i).bind fun k => k.after p j := by
  induction j with
  | zero => simp [after]
  | succ j ih =>
    rw [← Nat.add_assoc, after, ih, Option.bind_assoc]
    rfl

theorem after_of_le {p : Program} {m b : Machine} {i j : Nat} (h : i ≤ j)
    (hb : m.after p j = some b) :
    ∃ a, m.after p i = some a ∧ a.after p (j - i) = some b := by
  rw [← Nat.add_sub_cancel' h, after_add] at hb
  exact Option.bind_eq_some_iff.mp hb

theorem after_none {p : Program} {m : Machine} {i j : Nat} (h : i ≤ j)
    (ended : m.after p i = none) : m.after p j = none := by
  rw [← Nat.add_sub_cancel' h, after_add, ended, Option.bind_none]

/-- What every token keeps holds as long as the program runs. -/
theorem after_invariant {p : Program} (Inv : Machine → Prop)
    (keeps : ∀ a b, Inv a → Stepped p a b → Inv b) {m k : Machine} {n : Nat} (start : Inv m)
    (h : m.after p n = some k) : Inv k := by
  induction n generalizing k with
  | zero =>
    cases h
    exact start
  | succ n ih =>
    obtain ⟨a, ha, hstep⟩ := after_succ_iff.mp h
    exact keeps a k (ih ha) (step_running hstep)

/-- What is written when the program starves. -/
def farewell : List UInt8 :=
  Text.utf8 (starvationMessage ++ "\n")

@[simp]
theorem note_output (m : Machine) (e : Event) : (m.note e).output = m.output := rfl

theorem starve_eq (location : Location) (m : Machine) :
    m.starve location =
      .finished
        (match m.output.writeRefusal? farewell with
          | none => .ok .starved
          | some message => .error (.stream message))
        { m.note (.starved m.tape.stomach location) with
          output := m.output.write farewell } := by
  unfold starve emit farewell
  simp only [note_output]
  cases m.output.writeRefusal? (Text.utf8 (starvationMessage ++ "\n")) <;> rfl

/-- How the machine comes to its end. -/
inductive Finished (p : Program) (m : Machine) : Except Fault Outcome → Machine → Prop where
  | completed (past : p[m.position]? = none) : Finished p m (.ok .completed) m
  | terminated {t : Token} {m' : Machine} (taken : m.taken? p = some t)
      (dispatched : m.dispatch p t = (.ok .halt, m')) :
      Finished p m (.ok .terminated) (m'.note (.terminated t.location))
  | starved {t : Token} {m' : Machine} (taken : m.taken? p = some t)
      (dispatched : m.dispatch p t = (.ok .next, m')) (starving : m'.tape.stomachValue < 0)
      (room : m'.output.writeRefusal? farewell = none) :
      Finished p m (.ok .starved) { m'.note (.starved m'.tape.stomach t.location) with
        output := m'.output.write farewell }
  | silenced {t : Token} {m' : Machine} {message : String} (taken : m.taken? p = some t)
      (dispatched : m.dispatch p t = (.ok .next, m')) (starving : m'.tape.stomachValue < 0)
      (refused : m'.output.writeRefusal? farewell = some message) :
      Finished p m (.error (.stream message))
        { m'.note (.starved m'.tape.stomach t.location) with
          output := m'.output.write farewell }
  | faulted {t : Token} {m' : Machine} {f : Fault} (taken : m.taken? p = some t)
      (dispatched : m.dispatch p t = (.error f, m')) : Finished p m (.error f) m'

theorem step_finished {p : Program} {m m' : Machine} {result : Except Fault Outcome}
    (h : m.step p = .finished result m') : Finished p m result m' := by
  rcases step_cases p m with ⟨past, completed⟩ | ⟨t, -, -, ignored⟩ | ⟨t, taken, acts⟩
  · cases completed.symm.trans h
    exact .completed past
  · simp [ignored] at h
  · rw [acts] at h
    unfold settled at h
    split at h
    · rename_i dispatched
      cases h
      exact .faulted taken dispatched
    · rename_i dispatched
      cases h
      exact .terminated taken dispatched
    · simp at h
    · rename_i n dispatched
      split at h
      · rename_i starving
        have starving : n.tape.stomachValue < 0 := by simpa [Tape.starving] using starving
        rw [starve_eq] at h
        cases room : n.output.writeRefusal? farewell with
        | none =>
          rw [room] at h
          cases h
          exact .starved taken dispatched starving room
        | some message =>
          rw [room] at h
          cases h
          exact .silenced taken dispatched starving room
      · simp at h

theorem execute_of_finished {p : Program} {m m' : Machine} {result : Except Fault Outcome}
    (h : m.step p = .finished result m') : m.execute p = (result, m') := by
  rw [execute]
  split <;> simp_all

theorem execute_of_running {p : Program} {m m' : Machine} (h : m.step p = .running m') :
    m.execute p = m'.execute p := by
  rw [execute]
  split <;> simp_all

theorem execute_after {p : Program} {m k : Machine} {n : Nat} (h : m.after p n = some k) :
    m.execute p = k.execute p := by
  induction n generalizing k with
  | zero =>
    cases h
    rfl
  | succ n ih =>
    obtain ⟨a, ha, hstep⟩ := after_succ_iff.mp h
    rw [ih ha, execute_of_running hstep]

theorem after_succ_of_running {p : Program} {m m' : Machine} (h : m.step p = .running m')
    (n : Nat) : m.after p (n + 1) = m'.after p n := by
  rw [Nat.add_comm, after_add]
  simp [after, next?_eq_some_iff.mpr h]

/-- Some machine of a run is the last one: its token ends the program. -/
theorem exists_last (p : Program) (m : Machine) :
    ∃ n k result last, m.after p n = some k ∧ k.step p = .finished result last := by
  -- along the recursion of `execute`, which `Nearer` bounds
  fun_induction execute p m with
  | case1 m m' running ih =>
    obtain ⟨n, k, result, last, reached, finished⟩ := ih
    exact ⟨n + 1, k, result, last, (after_succ_of_running running n).trans reached, finished⟩
  | case2 m result last finished => exact ⟨0, m, result, last, rfl, finished⟩

/-- The machine that takes the first token when it is asked to run the program. -/
def started (p : Program) (m : Machine) : Machine :=
  m.note (.executing p.size m.tape.capacity)

theorem run_of_finished {p : Program} {m k last : Machine} {n : Nat}
    {result : Except Fault Outcome} (reached : (m.started p).after p n = some k)
    (finished : k.step p = .finished result last) :
    m.run p = (verdict result last.output.flushRefusal?,
      { last with output := last.output.flush }) := by
  have ended : (m.started p).execute p = (result, last) :=
    (execute_after reached).trans (execute_of_finished finished)
  unfold started at ended
  simp only [run, ended]

theorem run_ok {p : Program} {m final : Machine} {outcome : Outcome}
    (h : m.run p = (.ok outcome, final)) :
    ∃ n k last, (m.started p).after p n = some k ∧ Finished p k (.ok outcome) last ∧
      final = { last with output := last.output.flush } := by
  obtain ⟨n, k, result, last, reached, finished⟩ := exists_last p (m.started p)
  rw [run_of_finished reached finished, Prod.mk.injEq] at h
  obtain ⟨ok, rfl⟩ := h
  unfold verdict at ok
  split at ok <;> cases ok
  exact ⟨n, k, last, reached, step_finished finished, rfl⟩

/-- Every run ends: wherever the machine stands and whatever its loop, comment flag, comparison,
tape and streams are, some token is the last one, and it decides the result. -/
theorem run_halts (p : Program) (m : Machine) :
    ∃ n k result last, (m.started p).after p n = some k ∧ k.step p = .finished result last ∧
      (∀ j, n < j → (m.started p).after p j = none) ∧
      m.run p = (verdict result last.output.flushRefusal?,
        { last with output := last.output.flush }) := by
  obtain ⟨n, k, result, last, reached, finished⟩ := exists_last p (m.started p)
  refine ⟨n, k, result, last, reached, finished, ?_, run_of_finished reached finished⟩
  intro j later
  apply after_none later
  rw [after, reached, Option.bind_some, next?_eq_none_of_finished finished]

end Machine

end HungryTape
