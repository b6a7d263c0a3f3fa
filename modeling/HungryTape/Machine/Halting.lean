import HungryTape.Machine.Step

/-!
Every program ends. Tokens are taken from left to right, and the only way back is to a loop's
start, which uses up one of its passes. A loop that is armed while another is in progress replaces
it and starts where the machine stands. So the leftmost position that the machine can still come
to never goes back, and while it stays the same the passes run out.
-/

namespace HungryTape

/-- The tokens that arm a loop. -/
def Kind.arms : Kind → Bool
  | newline | loopStart => true
  | _ => false

/-- The tokens that leave the loop alone and are followed by a look at the stomach. -/
def Kind.plain : Kind → Bool
  | newline | loopStart | loopEnd | pass | terminate => false
  | _ => true

namespace Machine

/-- The leftmost position that the machine can still come to. -/
def low (m : Machine) : Nat :=
  match m.loop with
  | none => m.position
  | some loop => min m.position (loop.start + 1)

def passes (m : Machine) : Nat :=
  match m.loop with
  | none => 0
  | some loop => loop.remaining.toNat

/-- What plain instructions have in common. -/
structure Onward (m : Machine) (flow : Flow) (m' : Machine) : Prop where
  flow : flow = .next
  position : m.position ≤ m'.position
  loop : m'.loop = m.loop

/-- How far an instruction moves the machine and what it does to the loop. -/
inductive Moved (m : Machine) : Kind → Flow → Machine → Prop where
  | ahead {kind : Kind} {m' : Machine} (plain : kind.plain = true)
      (position : m.position ≤ m'.position) (loop : m'.loop = m.loop) : Moved m kind .next m'
  | passed : Moved m .pass .skip m
  | halted : Moved m .terminate .halt m
  | armed {kind : Kind} {m' : Machine} {l : Loop} (arms : kind.arms = true)
      (position : m'.position = m.position) (start : l.start = m.position)
      (count : l.cellDriven = true → l.remaining = m'.tape.value) (loop : m'.loop = some l)
      (commented : m'.commented = m.commented) : Moved m kind .next m'
  | closed {m' : Machine} (position : m'.position = m.position) (loop : m'.loop = none) :
      Moved m .loopEnd .next m'
  | rewound {m' : Machine} {l : Loop} (active : m.loop = some l) (left : 1 < l.remaining)
      (position : m'.position = l.start)
      (loop : m'.loop = some { l with remaining := l.remaining - 1 })
      (tape : m'.tape = if l.cellDriven then m.tape.store (m.tape.value - 1) else m.tape)
      (commented : m'.commented = m.commented) : Moved m .loopEnd .skip m'

theorem settle_ok {α : Type} {m m' : Machine} {decision : Except Fault α}
    {act : Machine → α → Machine} {flow : Flow} (h : m.settle decision act = (.ok flow, m')) :
    flow = .next ∧ ∃ a, decision = .ok a ∧ m' = act m a := by
  cases decision with
  | error f => simp [settle] at h
  | ok a =>
    simp only [settle, Prod.mk.injEq, Except.ok.injEq] at h
    exact ⟨h.1.symm, a, rfl, h.2.symm⟩

theorem settle_onward {α : Type} {m m' : Machine} {decision : Except Fault α}
    {act : Machine → α → Machine} {flow : Flow} (position : ∀ a, (act m a).position = m.position)
    (loop : ∀ a, (act m a).loop = m.loop) (h : m.settle decision act = (.ok flow, m')) :
    Onward m flow m' := by
  obtain ⟨next, a, -, rfl⟩ := settle_ok h
  exact ⟨next, Nat.le_of_eq (position a).symm, loop a⟩

theorem emit_snd (m : Machine) (bytes : List UInt8) :
    (m.emit bytes).2 = { m with output := m.output.write bytes } := by
  unfold emit
  split <;> rfl

theorem emit_onward {m m' : Machine} {bytes : List UInt8} {flow : Flow}
    (h : m.emit bytes = (.ok flow, m')) : Onward m flow m' := by
  obtain rfl : { m with output := m.output.write bytes } = m' := by rw [← emit_snd, h]
  refine ⟨?_, Nat.le_refl _, rfl⟩
  unfold emit at h
  split at h <;> simp only [Prod.mk.injEq, Except.ok.injEq, reduceCtorEq, false_and] at h
  exact h.1.symm

theorem move_onward {p : Program} {t : Token} {d : Int} {m m' : Machine} {flow : Flow}
    (h : m.move p t d = (.ok flow, m')) : Onward m flow m' :=
  settle_onward (fun _ => rfl) (fun _ => rfl) h

theorem adjust_onward {p : Program} {t : Token} {op : Operator} {m m' : Machine} {flow : Flow}
    (h : m.adjust p t op = (.ok flow, m')) : Onward m flow m' :=
  settle_onward (fun _ => rfl) (fun _ => rfl) h

theorem scale_onward {p : Program} {t : Token} {op : Operator} {m m' : Machine} {flow : Flow}
    (h : m.scale p t op = (.ok flow, m')) : Onward m flow m' := by
  unfold scale at h
  split at h
  · simp at h
  · simp only [Prod.mk.injEq, Except.ok.injEq] at h
    obtain ⟨next, rfl⟩ := h
    exact ⟨next.symm, Nat.le_refl _, rfl⟩
  · exact settle_onward (fun _ => rfl) (fun _ => rfl) h

theorem cleanse_onward (m : Machine) : Onward m .next m.cleanse := by
  unfold cleanse
  split <;> exact ⟨rfl, Nat.le_refl _, rfl⟩

theorem read_onward {reader : Input → Reading × Input} {t : Token} {m m' : Machine} {flow : Flow}
    (h : m.read reader t = (.ok flow, m')) : Onward m flow m' := by
  unfold read at h
  split at h
  · simp at h
  · dsimp only at h
    split at h <;> simp only [Prod.mk.injEq, Except.ok.injEq, reduceCtorEq, false_and] at h <;>
      · obtain ⟨next, rfl⟩ := h
        exact ⟨next.symm, Nat.le_refl _, rfl⟩

theorem branch_onward {p : Program} {t : Token} {m m' : Machine} {flow : Flow}
    (h : m.branch p t = (.ok flow, m')) : Onward m flow m' := by
  unfold branch at h
  split at h
  · simp at h
  · dsimp only at h
    split at h
    · rename_i target found
      simp only [Prod.mk.injEq, Except.ok.injEq] at h
      obtain ⟨next, rfl⟩ := h
      exact ⟨next.symm, Nat.le_of_succ_le (Program.le_of_findFrom? found), rfl⟩
    · simp at h

theorem printLiteral_onward {p : Program} {m m' : Machine} {flow : Flow}
    (h : m.printLiteral p = (.ok flow, m')) : Onward m flow m' := by
  unfold printLiteral at h
  split at h
  · simp only [Prod.mk.injEq, Except.ok.injEq] at h
    obtain ⟨next, rfl⟩ := h
    exact ⟨next.symm, Nat.le_refl _, rfl⟩
  · split at h
    · exact emit_onward h
    · split at h
      · rename_i emitted
        simp only [Prod.mk.injEq, Except.ok.injEq] at h
        obtain ⟨rfl, rfl⟩ := h
        obtain ⟨next, position, loop⟩ := emit_onward emitted
        exact ⟨next, Nat.le_succ_of_le position, loop⟩
      · simp at h

theorem loopHere_ok {p : Program} {m : Machine} {l : Loop} (h : m.loopHere p = .ok l) :
    l.start = m.position ∧ (l.cellDriven = true → l.remaining = m.tape.value) := by
  unfold loopHere at h
  cases argument : (m.cursor p).argument m.tape with
  | error f => simp [argument, bind, Except.bind] at h
  | ok found =>
    cases found <;>
      · simp only [argument, bind, Except.bind, pure, Except.pure, Except.ok.injEq] at h
        subst h
        simp

/-- The machine that arms may have fed before. -/
theorem arm_moved {p : Program} {t : Token} {m n m' : Machine} {flow : Flow}
    (h : n.arm p t = (.ok flow, m')) (arms : t.kind.arms = true)
    (position : n.position = m.position) (commented : n.commented = m.commented) :
    Moved m t.kind flow m' := by
  obtain ⟨rfl, l, here, rfl⟩ := settle_ok h
  obtain ⟨start, count⟩ := loopHere_ok here
  exact .armed arms position (start.trans position) count rfl commented

theorem openLoop_moved {p : Program} {t : Token} {m m' : Machine} {flow : Flow}
    (h : m.openLoop p t = (.ok flow, m')) (arms : t.kind.arms = true) :
    Moved m t.kind flow m' := by
  unfold openLoop at h
  split at h
  · simp at h
  · exact arm_moved h arms rfl rfl

/-- A machine whose loop has just used up one pass of `l` closes it or goes back. -/
theorem rewind_moved {l : Loop} {m n m' : Machine} {flow : Flow}
    (h : n.rewind { l with remaining := l.remaining - 1 } = (.ok flow, m'))
    (active : m.loop = some l) (position : n.position = m.position)
    (used : n.loop = some { l with remaining := l.remaining - 1 })
    (tape : n.tape = if l.cellDriven then m.tape.store (m.tape.value - 1) else m.tape)
    (commented : n.commented = m.commented) : Moved m .loopEnd flow m' := by
  unfold rewind at h
  split at h <;> simp only [Prod.mk.injEq, Except.ok.injEq] at h <;> obtain ⟨rfl, rfl⟩ := h
  · rename_i left
    have left : 0 < l.remaining - 1 := left
    exact .rewound active (by omega) rfl used tape commented
  · exact .closed position rfl

theorem sub_one_ok {location : Location} {a v : Int}
    (h : Operator.sub.applyAt location a 1 = .ok v) : v = a - 1 := by
  unfold Operator.applyAt Operator.apply at h
  simp only [reduceCtorEq, false_and, ↓reduceIte, Operator.exact] at h
  by_cases fits : Cell.Fits (Operator.sub.widest a 1)
  · simp only [fits, ↓reduceIte, Except.ok.injEq] at h
    exact h.symm
  · simp [fits] at h

theorem closeLoop_moved {t : Token} {m m' : Machine} {flow : Flow}
    (h : m.closeLoop t = (.ok flow, m')) : Moved m .loopEnd flow m' := by
  unfold closeLoop at h
  split at h
  · rename_i inactive
    simp only [Prod.mk.injEq, Except.ok.injEq] at h
    obtain ⟨rfl, rfl⟩ := h
    exact .closed rfl inactive
  · rename_i l active
    split at h
    · simp only [Prod.mk.injEq, Except.ok.injEq] at h
      obtain ⟨rfl, rfl⟩ := h
      exact .closed rfl rfl
    · dsimp only at h
      split at h
      · rename_i cellDriven
        split at h
        · rename_i v paid
          refine rewind_moved h active rfl rfl ?_ rfl
          rw [if_pos cellDriven, ← sub_one_ok paid]
          rfl
        · simp at h
      · rename_i counted
        exact rewind_moved h active rfl rfl (by rw [if_neg counted]) rfl

theorem dispatch_moved {p : Program} {t : Token} {m m' : Machine} {flow : Flow}
    (h : m.dispatch p t = (.ok flow, m')) : Moved m t.kind flow m' := by
  have onward (plain : t.kind.plain = true) (h : Onward m flow m') : Moved m t.kind flow m' := by
    obtain ⟨rfl, position, loop⟩ := h
    exact .ahead plain position loop
  unfold dispatch at h
  cases kind : t.kind <;> simp only [kind] at h onward
  case moveLeft | moveRight => exact onward rfl (move_onward h)
  case increment | decrement => exact onward rfl (adjust_onward h)
  case multiply | divide | modulo => exact onward rfl (scale_onward h)
  case printChar | printInt => exact onward rfl (emit_onward h)
  case printLiteral => exact onward rfl (printLiteral_onward h)
  case readChar | readInt => exact onward rfl (read_onward h)
  case condStart => exact onward rfl (branch_onward h)
  case newline => exact kind ▸ arm_moved h (kind ▸ rfl) rfl rfl
  case loopStart => exact kind ▸ openLoop_moved h (kind ▸ rfl)
  case loopEnd => exact closeLoop_moved h
  all_goals
    simp only [Prod.mk.injEq, Except.ok.injEq] at h
    obtain ⟨rfl, rfl⟩ := h
  case cleanse => exact onward rfl (cleanse_onward m)
  case pass => exact .passed
  case terminate => exact .halted
  all_goals exact .ahead rfl (Nat.le_refl _) rfl

/-- One machine is nearer to the end of the program than another: its leftmost position is
further to the right, or else it has fewer passes left, or else it stands further to the right. -/
def Nearer (p : Program) (m' m : Machine) : Prop :=
  p.size - m'.low < p.size - m.low ∨
    p.size - m'.low = p.size - m.low ∧
      (m'.passes < m.passes ∨
        m'.passes = m.passes ∧ p.size - m'.position < p.size - m.position)

theorem low_le (m : Machine) : m.low ≤ m.position := by
  unfold low
  split
  · exact Nat.le_refl _
  · exact Nat.min_le_left _ _

theorem low_mono {m m' : Machine} (position : m.position ≤ m'.position)
    (loop : m'.loop = m.loop) : m.low ≤ m'.low := by
  cases active : m.loop with
  | none => simpa only [low, loop, active] using position
  | some l =>
    simp only [low, loop, active]
    omega

theorem low_advance_of_armed {m m' : Machine} {l : Loop} (position : m'.position = m.position)
    (start : l.start = m.position) (loop : m'.loop = some l) :
    m'.advance.low = m.position + 1 := by
  simp only [low, advance, loop, position, start, Nat.min_self]

theorem low_advance_of_closed {m m' : Machine} (position : m'.position = m.position)
    (loop : m'.loop = none) : m'.advance.low = m.position + 1 := by
  simp only [low, advance, loop, position]

theorem Moved.low_le_advance {m m' : Machine} {kind : Kind} {flow : Flow}
    (h : Moved m kind flow m') : m.low ≤ m'.advance.low := by
  have low_le := low_le m
  cases h with
  | ahead plain position loop => exact low_mono (Nat.le_succ_of_le position) loop
  | passed | halted => exact low_mono (Nat.le_succ _) rfl
  | armed arms position start count loop commented =>
    rw [low_advance_of_armed position start loop]
    omega
  | closed position loop =>
    rw [low_advance_of_closed position loop]
    omega
  | rewound active left position loop tape commented =>
    simp only [low, advance, loop, position, active]
    omega

theorem nearer_ahead {p : Program} {m m' : Machine} (inside : m.position < p.size)
    (position : m.position < m'.position) (loop : m'.loop = m.loop) : Nearer p m' m := by
  have low_le := low_le m
  rcases Nat.lt_or_eq_of_le (low_mono (Nat.le_of_lt position) loop) with right | same
  · exact .inl (by omega)
  · exact .inr ⟨by rw [same], .inr ⟨by simp only [passes, loop], by omega⟩⟩

/-- Arming a loop or closing one moves the leftmost position behind the token, and going back
uses up a pass. -/
theorem Moved.nearer {p : Program} {m m' : Machine} {kind : Kind} {flow : Flow}
    (h : Moved m kind flow m') (inside : m.position < p.size) : Nearer p m'.advance m := by
  have low_le := low_le m
  have mono := h.low_le_advance
  cases h with
  | ahead plain position loop => exact nearer_ahead inside (Nat.lt_succ_of_le position) loop
  | passed | halted => exact nearer_ahead inside (Nat.lt_succ_self _) rfl
  | armed arms position start count loop commented =>
    have low := low_advance_of_armed position start loop
    exact .inl (by omega)
  | closed position loop =>
    have low := low_advance_of_closed position loop
    exact .inl (by omega)
  | rewound active left position loop tape commented =>
    have passes : m'.advance.passes < m.passes := by
      simp only [Machine.passes, advance, loop, active]
      omega
    rcases Nat.lt_or_eq_of_le mono with right | same
    · exact .inl (by omega)
    · exact .inr ⟨by rw [same], .inl passes⟩

/-- The token that the machine acts on. Inside a comment it acts on none. -/
def taken? (p : Program) (m : Machine) : Option Token :=
  if m.commented then none else p[m.position]?

theorem taken?_eq_some_iff {p : Program} {m : Machine} {t : Token} :
    m.taken? p = some t ↔ m.commented = false ∧ p[m.position]? = some t := by
  unfold taken?
  cases m.commented <;> simp

/-- The machine is at the end of the program, inside a comment or acts on a token. -/
theorem step_cases (p : Program) (m : Machine) :
    (p[m.position]? = none ∧ m.step p = .finished (.ok .completed) m) ∨
    (∃ t, p[m.position]? = some t ∧ m.commented = true ∧ m.step p = .running (m.stepOver t)) ∨
    ∃ t, m.taken? p = some t ∧ m.step p = settled t (m.dispatch p t) := by
  cases here : p[m.position]? with
  | none => exact .inl ⟨rfl, by simp [step, here]⟩
  | some t =>
    cases commented : m.commented with
    | true => exact .inr (.inl ⟨t, rfl, rfl, by simp [step, here, commented]⟩)
    | false =>
      have taken : m.taken? p = some t := taken?_eq_some_iff.mpr ⟨commented, here⟩
      exact .inr (.inr ⟨t, taken, by simp [step, here, commented]⟩)

theorem starve_finishes {location : Location} {m m' : Machine} :
    m.starve location ≠ .running m' := by
  unfold starve
  dsimp only
  split <;> simp

/-- How the machine comes from one token to the next. -/
inductive Stepped (p : Program) (m : Machine) : Machine → Prop where
  | ignored {t : Token} (here : p[m.position]? = some t) (commented : m.commented = true) :
      Stepped p m (m.stepOver t)
  | checked {t : Token} {m' : Machine} (taken : m.taken? p = some t)
      (dispatched : m.dispatch p t = (.ok .next, m')) (fed : 0 ≤ m'.tape.stomachValue) :
      Stepped p m m'.advance
  | skipped {t : Token} {m' : Machine} (taken : m.taken? p = some t)
      (dispatched : m.dispatch p t = (.ok .skip, m')) : Stepped p m m'.advance

theorem step_running {p : Program} {m m' : Machine} (h : m.step p = .running m') :
    Stepped p m m' := by
  rcases step_cases p m with ⟨-, completed⟩ | ⟨t, here, commented, ignored⟩ | ⟨t, taken, acts⟩
  · simp [completed] at h
  · cases ignored.symm.trans h
    exact .ignored here commented
  · rw [acts] at h
    unfold settled at h
    split at h
    · simp at h
    · simp at h
    · rename_i dispatched
      cases h
      exact .skipped taken dispatched
    · rename_i dispatched
      split at h
      · exact absurd h starve_finishes
      · rename_i fed
        cases h
        exact .checked taken dispatched (by simpa [Tape.starving] using fed)

theorem Stepped.low_le {p : Program} {m m' : Machine} (h : Stepped p m m') : m.low ≤ m'.low := by
  cases h with
  | ignored here commented => exact low_mono (Nat.le_succ _) rfl
  | checked taken dispatched fed => exact (dispatch_moved dispatched).low_le_advance
  | skipped taken dispatched => exact (dispatch_moved dispatched).low_le_advance

theorem step_nearer {p : Program} {m m' : Machine} (h : m.step p = .running m') :
    Nearer p m' m := by
  have inside {t : Token} (here : p[m.position]? = some t) : m.position < p.size :=
    (Array.getElem?_eq_some_iff.mp here).1
  cases step_running h with
  | ignored here commented => exact nearer_ahead (inside here) (Nat.lt_succ_self _) rfl
  | checked taken dispatched fed =>
    exact (dispatch_moved dispatched).nearer (inside (taken?_eq_some_iff.mp taken).2)
  | skipped taken dispatched =>
    exact (dispatch_moved dispatched).nearer (inside (taken?_eq_some_iff.mp taken).2)

end Machine

end HungryTape
