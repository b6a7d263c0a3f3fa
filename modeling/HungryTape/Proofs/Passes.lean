import HungryTape.Proofs.Ranges
import HungryTape.Proofs.Searches
import HungryTape.Proofs.Trails

namespace HungryTape

/-- The tokens behind which the next one follows, in the same loop and outside comments. -/
def Kind.straight (kind : Kind) : Bool :=
  !kind.jumps && !kind.loops && kind ≠ .comment

theorem Kind.straight_of_body {kind : Kind}
    (body : kind ∉ [.newline, .loopStart, .condStart, .comment, .printLiteral])
    (other : kind ≠ .loopEnd) : kind.straight = true := by
  cases kind <;> simp_all [straight, jumps, loops]

/-- From the token at `s` one token follows the other up to the `]` at `e`. -/
structure Program.Body (p : Program) (s e : Nat) : Prop where
  before : s < e
  straight : ∀ i, s < i → i < e → ∃ t, p[i]? = some t ∧ t.kind.straight = true
  close : ∃ t, p[e]? = some t ∧ t.kind = .loopEnd

theorem Program.First.body {p : Program} {s e : Nat} (closing : p.First .loopEnd s e)
    (plain : ∀ i u, s < i → i < e → p[i]? = some u →
      u.kind ∉ [.newline, .loopStart, .condStart, .comment, .printLiteral]) : p.Body s e := by
  refine ⟨closing.behind, ?_, closing.found⟩
  intro i behind before
  obtain ⟨_, here, -⟩ := closing.found
  obtain ⟨inside, -⟩ := Array.getElem?_eq_some_iff.mp here
  have there : p[i]? = some p[i] := Array.getElem?_eq_getElem (Nat.lt_trans before inside)
  exact ⟨p[i], there, Kind.straight_of_body (plain i _ behind before there)
    (closing.between i _ behind before there)⟩

/-- The `]` of the loop takes a pass, and takes it from the current cell. -/
def Loop.pays (l : Loop) : Bool :=
  l.cellDriven && 0 < l.remaining

namespace Machine

variable {p : Program} {t : Token} {m m' : Machine} {l : Loop} {i s e : Nat} {flow : Flow}

/-- The machine stands at `i`, outside comments, while the loop is in progress. -/
structure InPass (l : Loop) (i : Nat) (m : Machine) : Prop where
  position : m.position = i
  live : m.commented = false
  loop : m.loop = some l

theorem InPass.taken (h : m.InPass l i) (here : p[i]? = some t) : m.taken? p = some t :=
  taken?_eq_some_iff.mpr ⟨h.live, by rw [h.position, here]⟩

theorem InPass.next (h : m.InPass l i) (here : p[i]? = some t) (straight : t.kind.straight = true)
    (running : m.step p = .running m') : m'.InPass l (i + 1) := by
  obtain ⟨flow, a, dispatched, rfl⟩ := dispatched_of_running (h.taken here) running
  obtain ⟨⟨jumps, loops⟩, code⟩ := by simpa [Kind.straight] using straight
  obtain ⟨commented, position, loop⟩ := frame_of_dispatch dispatched
  refine ⟨?_, ?_, ?_⟩
  · simp only [advance, position jumps, h.position]
  · simp [advance, commented, h.live, code]
  · simp only [advance, loop loops, h.loop]

theorem rewind_ok (h : m.rewind l = (.ok flow, m')) :
    m'.tape = m.tape ∧
      if 0 < l.remaining then m'.position = l.start ∧ m'.loop = m.loop
      else m'.position = m.position ∧ m'.loop = none := by
  unfold rewind at h
  split at h
  · rename_i left
    cases h
    rw [if_pos left]
    exact ⟨rfl, rfl, rfl⟩
  · rename_i spent
    cases h
    rw [if_neg spent]
    exact ⟨rfl, rfl, rfl⟩

/-- A `]` goes back unless this was the last pass. -/
theorem closeLoop_ok (active : m.loop = some l) (h : m.closeLoop t = (.ok flow, m')) :
    m'.tape = (if l.pays then m.tape.store (m.tape.value - 1) else m.tape) ∧
    if 1 < l.remaining then
      m'.position = l.start ∧ m'.loop = some { l with remaining := l.remaining - 1 }
    else m'.position = m.position ∧ m'.loop = none := by
  by_cases spent : l.remaining ≤ 0
  · have free : l.pays = false := by simp [Loop.pays, spent]
    have last : ¬ 1 < l.remaining := by omega
    rw [closeLoop_of_spent active spent] at h
    cases h
    rw [if_neg last, free]
    exact ⟨rfl, rfl, rfl⟩
  · have last : 0 < l.remaining - 1 ↔ 1 < l.remaining := by omega
    simp only [closeLoop, active, if_neg spent] at h
    split at h
    · rename_i cellDriven
      have pays : l.pays = true := by
        simp only [Loop.pays, cellDriven, Bool.true_and, decide_eq_true_eq]
        omega
      split at h
      · rename_i v paid
        obtain ⟨tape, goes⟩ := rewind_ok h
        simp only [last] at goes
        rw [if_pos pays, tape, ← sub_one_ok paid]
        exact ⟨rfl, goes⟩
      · cases h
    · rename_i counted
      have free : l.pays = false := by simp [Loop.pays, counted]
      obtain ⟨tape, goes⟩ := rewind_ok h
      simp only [last] at goes
      rw [free, tape]
      exact ⟨rfl, goes⟩

/-- If the machine stands on the `]` at `e`, then this is what becomes of the tape. -/
def PaysAt (p : Program) (e : Nat) (pays : Bool) (m : Machine) : Prop :=
  m.position = e →
    (m.step p).machine.tape = if pays then m.tape.store (m.tape.value - 1) else m.tape

/-- The loop is over, and the machine stands behind its `]`. -/
structure Passed (e : Nat) (m : Machine) : Prop where
  position : m.position = e + 1
  loop : m.loop = none

theorem InPass.close (h : m.InPass l e) (here : p[e]? = some t) (kind : t.kind = .loopEnd)
    (running : m.step p = .running m') :
    m.PaysAt p e l.pays ∧
      if 1 < l.remaining then m'.InPass { l with remaining := l.remaining - 1 } (l.start + 1)
      else m'.Passed e := by
  obtain ⟨flow, a, dispatched, rfl⟩ := dispatched_of_running (h.taken here) running
  have live : a.commented = false := by
    simp [(frame_of_dispatch dispatched).commented, h.live, kind]
  simp only [dispatch, kind] at dispatched
  obtain ⟨tape, goes⟩ := closeLoop_ok h.loop dispatched
  constructor
  · intro _
    rw [running]
    exact tape
  · by_cases left : 1 < l.remaining
    · rw [if_pos left] at goes ⊢
      exact ⟨congrArg (· + 1) goes.1, live, goes.2⟩
    · rw [if_neg left] at goes ⊢
      exact ⟨congrArg (· + 1) (goes.1.trans h.position), goes.2⟩

section

variable {pays : Bool} {n : Nat}

/-- What is left of the body, from wherever the machine stands in it. -/
theorem follows_body (h : m.InPass l i) (body : p.Body s e) (behind : s < i)
    (ahead : i + n = e) :
    Follows p (PaysAt p e pays) m (List.range' i n) (InPass l e) := by
  induction n generalizing m i with
  | zero =>
    cases ahead
    exact .nil h
  | succ n ih =>
    obtain ⟨t, here, straight⟩ := body.straight i behind (by omega)
    have first : Follows p (PaysAt p e pays) m [m.position] (InPass l (i + 1)) := by
      apply Follows.one (h.taken here)
      intro m' running
      refine ⟨?_, h.next here straight running⟩
      intro atEnd
      have := h.position
      omega
    rw [h.position] at first
    apply first.append
    intro k inPass
    exact ih inPass (by omega) (by omega)

/-- One pass, and the machine is back behind the token that armed the loop or is through. -/
theorem follows_pass (h : m.InPass l (l.start + 1)) (body : p.Body l.start e) :
    Follows p (PaysAt p e l.pays) m (List.range' (l.start + 1) (e - l.start)) fun k =>
      if 1 < l.remaining then k.InPass { l with remaining := l.remaining - 1 } (l.start + 1)
      else k.Passed e := by
  obtain ⟨n, rfl⟩ : ∃ n, e = l.start + 1 + n := Nat.exists_eq_add_of_le body.before
  obtain ⟨t, here, kind⟩ := body.close
  have size : l.start + 1 + n - l.start = n + 1 := by omega
  rw [size, List.range'_concat, Nat.one_mul]
  apply (follows_body h body (Nat.lt_succ_self _) rfl).append
  intro k atEnd
  rw [← atEnd.position]
  apply Follows.one (atEnd.taken here)
  intro k' running
  rw [atEnd.position]
  exact atEnd.close here kind running

/-- The passes that are left. Each of them lowers the count, but the last one may find it below
one already. -/
theorem follows_passes (h : m.InPass l (l.start + 1)) (body : p.Body l.start e)
    (left : max l.remaining 1 = n) :
    Follows p (PaysAt p e l.pays) m
      (List.replicate n (List.range' (l.start + 1) (e - l.start))).flatten (Passed e) := by
  induction n generalizing m l with
  | zero => omega
  | succ n ih =>
    rw [List.replicate_succ, List.flatten_cons]
    apply (follows_pass h body).append
    intro k goes
    by_cases more : 1 < l.remaining
    · rw [if_pos more] at goes
      have pays : Loop.pays { l with remaining := l.remaining - 1 } = l.pays := by
        have positive : 0 < l.remaining := by omega
        simp [Loop.pays, more, positive]
      rw [← pays]
      exact ih goes body (by dsimp only; omega)
    · rw [if_neg more] at goes
      obtain rfl : n = 0 := by omega
      exact .nil goes

end

/-- The tape on which a token that arms a loop looks for its count. -/
def armingTape (t : Token) (m : Machine) : Tape :=
  if t.kind = .newline then m.tape.feed else m.tape

theorem arm_ok {n : Machine} (h : n.arm p t = (.ok flow, m')) :
    ∃ argument, (n.cursor p).argument n.tape = .ok argument ∧
      m'.position = n.position ∧ m'.commented = n.commented ∧
      m'.loop = some ⟨n.position, argument.getD n.tape.value, argument.isNone⟩ := by
  obtain ⟨-, l, here, rfl⟩ := settle_ok h
  obtain ⟨argument, found, here⟩ := Fault.ok_of_bind here
  refine ⟨argument, found, rfl, rfl, ?_⟩
  cases argument with
  | none =>
    cases here
    rfl
  | some count =>
    cases here
    rfl

theorem dispatch_arms (arms : t.kind.arms = true) (h : m.dispatch p t = (.ok flow, m')) :
    ∃ argument, (m.cursor p).argument (m.armingTape t) = .ok argument ∧
      m'.position = m.position ∧ m'.commented = m.commented ∧
      m'.loop =
        some ⟨m.position, argument.getD (m.armingTape t).value, argument.isNone⟩ := by
  cases kind : t.kind <;> simp only [kind, Kind.arms, Bool.false_eq_true] at arms
  case newline =>
    have tape : m.armingTape t = m.tape.feed := if_pos kind
    simp only [dispatch, kind] at h
    rw [tape]
    exact arm_ok h
  case loopStart =>
    have tape : m.armingTape t = m.tape := if_neg (by simp [kind])
    simp only [dispatch, kind, openLoop] at h
    split at h
    · cases h
    · rw [tape]
      exact arm_ok h

/-- A `[` or a newline whose next `]` comes before any other line, bracket, brace, comment or `@`.
Unless a fault, starvation or a `:` ends the program before the loop is over, exactly the tokens
behind it up to that `]` are acted on, in order, as often as the count says and at least once. Then
the machine stands behind the `]` and the loop is gone. A `]` changes nothing on the tape but for a
count that came from the current cell: then each pass takes one from the cell that is current by
then, and a count below one takes nothing. -/
theorem loop_pass_count {a : Machine} (taken : m.taken? p = some t) (arms : t.kind.arms = true)
    (armed : m.dispatch p t = (.ok flow, a)) (closing : p.First .loopEnd m.position e)
    (body : ∀ i u, m.position < i → i < e → p[i]? = some u →
      u.kind ∉ [.newline, .loopStart, .condStart, .comment, .printLiteral]) :
    ∃ argument, (m.cursor p).argument (m.armingTape t) = .ok argument ∧
      let count := argument.getD (m.armingTape t).value
      let pass := List.range' (m.position + 1) (e - m.position)
      let path := m.position :: (List.replicate (max count 1).toNat pass).flatten
      a.loop = some ⟨m.position, count, argument.isNone⟩ ∧
      (m.BreaksOff p path.length ∨
        ∃ k, m.after p path.length = some k ∧ (m.trail p path.length).map position = path ∧
          k.position = e + 1 ∧ k.loop = none ∧
          ∀ b ∈ m.trail p path.length, b.position = e →
            (b.step p).machine.tape =
              if argument = none ∧ 0 < count then b.tape.store (b.tape.value - 1)
              else b.tape) := by
  obtain ⟨live, -⟩ := taken?_eq_some_iff.mp taken
  obtain ⟨argument, found, position, commented, loop⟩ := dispatch_arms arms armed
  refine ⟨argument, found, ?_⟩
  intro count pass path
  refine ⟨loop, ?_⟩
  let l : Loop := ⟨m.position, count, argument.isNone⟩
  have arming : Follows p (PaysAt p e l.pays) m [m.position] (InPass l (l.start + 1)) := by
    apply Follows.one taken
    intro m' running
    obtain ⟨flow', a', dispatched, rfl⟩ := dispatched_of_running taken running
    cases armed.symm.trans dispatched
    refine ⟨?_, congrArg (· + 1) position, commented.trans live, loop⟩
    intro atEnd
    exact absurd atEnd (Nat.ne_of_lt closing.behind)
  have left : max count 1 = (max count 1).toNat := by omega
  rcases arming.append fun k inPass => follows_passes inPass (closing.body body) left with
    broke | ⟨k, reached, positions, acted, passed⟩
  · exact .inl broke
  · refine .inr ⟨k, reached, positions, passed.position, passed.loop, ?_⟩
    intro b mem atEnd
    simpa [Loop.pays, l] using acted b mem atEnd

/-- A line, and on it a loop that carries the first cell over to the second one. -/
def carrying : Program :=
  #[⟨.newline, "\n", ⟨1, 1⟩⟩, ⟨.moveRight, ">", ⟨2, 1⟩⟩, ⟨.increment, "+", ⟨2, 2⟩⟩,
    ⟨.moveLeft, "<", ⟨2, 3⟩⟩, ⟨.loopEnd, "]", ⟨2, 4⟩⟩]

/-- The first cell is the stomach. It pays for the line, so it is passed through one time less than
it held at first. -/
theorem loop_pass_count_carrying :
    let m := ofTape ⟨#[3, 0], 0, 0⟩ { input := { rest := [] } }
    ∃ k, m.after carrying 9 = some k ∧
      (m.trail carrying 9).map position = [0, 1, 2, 3, 4, 1, 2, 3, 4] ∧
      k.position = 5 ∧ k.loop = none ∧ k.tape = ⟨#[0, 2], 0, 0⟩ ∧
      ∀ b ∈ m.trail carrying 9, b.position = 4 →
        (b.step carrying).machine.tape = b.tape.store (b.tape.value - 1) := by
  intro m
  have armed : m.dispatch carrying ⟨.newline, "\n", ⟨1, 1⟩⟩ = (.ok .next, _) := rfl
  have closing : Program.First carrying .loopEnd m.position 4 :=
    (Cursor.find?_eq_some_iff (c := ⟨carrying, 0⟩)).mp (by decide +kernel)
  have body : ∀ i u, m.position < i → i < 4 → carrying[i]? = some u →
      u.kind ∉ [.newline, .loopStart, .condStart, .comment, .printLiteral] := by
    intro i u behind before there
    have among : i = 1 ∨ i = 2 ∨ i = 3 := by omega
    rcases among with rfl | rfl | rfl <;> cases there <;> decide
  have reached : m.after carrying 9 =
      some { m with tape := ⟨#[0, 2], 0, 0⟩, position := 5 } := by
    decide +kernel
  obtain ⟨argument, found, -, passes⟩ := loop_pass_count rfl rfl armed closing body
  cases found
  rcases passes with broke | ⟨k, there, positions, position, loop, pays⟩
  · exact absurd broke (not_breaksOff reached)
  · cases reached.symm.trans there
    exact ⟨_, reached, positions, position, loop, rfl, pays⟩

end Machine

end HungryTape
