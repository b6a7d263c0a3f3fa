import HungryTape.Proofs.Agreement
import HungryTape.Proofs.Turns

/-!
A program runs like the one that is left of it when the text of its comments is taken out. The two
machines go side by side: they act on the same tokens, and while the first one steps over the text
of a comment the other one waits.
-/

namespace HungryTape

/-- The second row of tokens is the first one without the text of its comments, where the flag says
whether the rows start inside a comment. No `{` is left in the second row, and no `@` right
before a `;`. -/
inductive Abridges : Bool → List Token → List Token → Prop where
  | done (commented : Bool) : Abridges commented [] []
  | kept {t : Token} {ts us : List Token} (branchless : t.kind ≠ .condStart)
      (printed : t.kind = .printLiteral → ∀ u ∈ ts.head?, u.kind ≠ .comment)
      (rest : Abridges (t.kind = .comment) ts us) : Abridges false (t :: ts) (t :: us)
  | text {t : Token} {ts us : List Token} (kind : t.kind ≠ .newline)
      (rest : Abridges true ts us) : Abridges true (t :: ts) us
  | closed {t u : Token} {ts us : List Token} (kind : t.kind = .newline)
      (kind' : u.kind = .newline) (rest : Abridges false ts us) :
      Abridges true (t :: ts) (u :: us)

/-- Up to the first `;` the rows are the same. -/
theorem Abridges.getElem?_eq {ts us : List Token} (h : Abridges false ts us) {k : Nat}
    (live : ∀ i t, i < k → ts[i]? = some t → t.kind ≠ .comment) : ts[k]? = us[k]? := by
  induction k generalizing ts us with
  | zero => cases h <;> rfl
  | succ k ih =>
    cases h with
    | done => rfl
    | @kept t ts us branchless printed rest =>
      have first : t.kind ≠ .comment := live 0 t (Nat.succ_pos k) rfl
      rw [decide_eq_false first] at rest
      exact ih rest fun i u before here => live (i + 1) u (Nat.succ_lt_succ before) here

namespace Program

/-- The tokens from a position on. -/
def onward (p : Program) (i : Nat) : List Token :=
  p.toList.drop i

theorem onward_getElem? (p : Program) (i k : Nat) : (p.onward i)[k]? = p[i + k]? := by
  simp [onward]

theorem of_onward_cons {p : Program} {i : Nat} {t : Token} {ts : List Token}
    (h : p.onward i = t :: ts) : p[i]? = some t ∧ p.onward (i + 1) = ts := by
  constructor
  · rw [← Nat.add_zero i, ← onward_getElem?, h]
    rfl
  · have tail : (p.onward i).tail = p.onward (i + 1) := by simp [onward]
    rw [← tail, h]
    rfl

theorem onward_eq_cons {p : Program} {i : Nat} {t : Token} (here : p[i]? = some t) :
    p.onward i = t :: p.onward (i + 1) := by
  obtain ⟨inside, rfl⟩ := Array.getElem?_eq_some_iff.mp here
  exact List.drop_eq_getElem_cons inside

theorem of_onward_nil {p : Program} {i : Nat} (h : p.onward i = []) : p[i]? = none := by
  rw [← Nat.add_zero i, ← onward_getElem?, h]
  rfl

theorem findLiveFrom?_nil {p : Program} {kind : Kind} {commented : Bool} {i : Nat}
    (h : p.onward i = []) : p.findLiveFrom? kind commented i = none := by
  have past : p.size ≤ i := Array.getElem?_eq_none_iff.mp (of_onward_nil h)
  rw [findLiveFrom?, dif_neg (Nat.not_lt.mpr past)]

theorem findLiveFrom?_cons {p : Program} {kind : Kind} {commented : Bool} {i : Nat} {t : Token}
    {ts : List Token} (h : p.onward i = t :: ts) :
    p.findLiveFrom? kind commented i =
      if commented then p.findLiveFrom? kind (t.kind ≠ .newline) (i + 1)
      else if t.kind = .comment then p.findLiveFrom? kind true (i + 1)
      else if t.kind = kind then some i
      else p.findLiveFrom? kind false (i + 1) := by
  obtain ⟨inside, here⟩ := Array.getElem?_eq_some_iff.mp (of_onward_cons h).1
  rw [findLiveFrom?, dif_pos inside, here]

/-- The search outside comments does not see their text. -/
theorem findLiveFrom?_isNone_eq {p q : Program} {kind : Kind} {commented : Bool} {i j : Nat}
    {ts us : List Token} (h : Abridges commented ts us) (hp : p.onward i = ts)
    (hq : q.onward j = us) :
    (p.findLiveFrom? kind commented i).isNone = (q.findLiveFrom? kind commented j).isNone := by
  induction h generalizing i j with
  | done commented => rw [findLiveFrom?_nil hp, findLiveFrom?_nil hq]
  | @kept t ts us branchless printed rest ih =>
    have next := ih (of_onward_cons hp).2 (of_onward_cons hq).2
    rw [findLiveFrom?_cons hp, findLiveFrom?_cons hq]
    by_cases comment : t.kind = .comment
    · simpa [comment] using next
    · by_cases found : t.kind = kind
      · subst found
        simp [comment]
      · simpa [comment, found] using next
  | text kind rest ih =>
    rw [findLiveFrom?_cons hp]
    simpa [kind] using ih (of_onward_cons hp).2 hq
  | closed kind kind' rest ih =>
    rw [findLiveFrom?_cons hp, findLiveFrom?_cons hq]
    simpa [kind, kind'] using ih (of_onward_cons hp).2 (of_onward_cons hq).2

/-- The rows stay side by side behind a token that opens no comment. -/
theorem abridges_succ {p q : Program} {i j : Nat} {t : Token}
    (h : Abridges false (p.onward i) (q.onward j)) (here : p[i]? = some t)
    (live : t.kind ≠ .comment) : Abridges false (p.onward (i + 1)) (q.onward (j + 1)) := by
  rw [onward_eq_cons here] at h
  generalize hq : q.onward j = us at h
  cases h with
  | kept branchless printed rest =>
    rw [decide_eq_false live] at rest
    rwa [(of_onward_cons hq).2]

end Program

namespace Machine

/-- Two loops with the same passes left that go back to the same place. -/
structure LoopTwin (p q : Program) (l l' : Loop) : Prop where
  remaining : l'.remaining = l.remaining
  cellDriven : l'.cellDriven = l.cellDriven
  body : Abridges false (p.onward (l.start + 1)) (q.onward (l'.start + 1))

/-- The machines hold the same data and stand at the same place, the second one in a program
without comment text. -/
structure Twin (p q : Program) (m m' : Machine) : Prop where
  same : Same m m'
  loop : Option.Rel (LoopTwin p q) m.loop m'.loop
  ahead : Abridges m.commented (p.onward m.position) (q.onward m'.position)

/-- Both machines act on the token, and the tokens behind it go on side by side. -/
structure Facing (p q : Program) (t : Token) (m m' : Machine) : Prop where
  twin : Twin p q m m'
  live : m.commented = false
  here : p[m.position]? = some t
  here' : q[m'.position]? = some t
  branchless : t.kind ≠ .condStart
  printed : t.kind = .printLiteral → ∀ u, p[m.position + 1]? = some u → u.kind ≠ .comment
  behind : Abridges (t.kind = .comment) (p.onward (m.position + 1)) (q.onward (m'.position + 1))

namespace Facing

variable {p q : Program} {t : Token} {m m' : Machine}

/-- Both machines see the same tokens ahead up to the first `;`. -/
theorem peek?_eq (h : Facing p q t m m') (live : t.kind ≠ .comment) {k : Nat}
    (open_ : ∀ i u, i < k → (m.cursor p).peek? (i + 1) = some u → u.kind ≠ .comment) :
    (m.cursor p).peek? (k + 1) = (m'.cursor q).peek? (k + 1) := by
  have behind := h.behind
  rw [decide_eq_false live] at behind
  have same := behind.getElem?_eq (k := k) fun i u before here => open_ i u before (by
    rw [Program.onward_getElem?, Nat.add_assoc, Nat.add_comm 1] at here
    exact here)
  rwa [Program.onward_getElem?, Program.onward_getElem?, Nat.add_assoc, Nat.add_assoc,
    Nat.add_comm 1] at same

theorem argument_eq (h : Facing p q t m m') (live : t.kind ≠ .comment) (tape : Tape) :
    (m'.cursor q).argument tape = (m.cursor p).argument tape := by
  have paren_kind {u : Token} (paren : (m.cursor p).kind? 1 = some .parenOpen)
      (here : (m.cursor p).peek? 1 = some u) : u.kind ≠ .comment := by
    simp only [Cursor.kind?, here, Option.map_some, Option.some.injEq] at paren
    simp [paren]
  symm
  apply Cursor.argument_congr
  · exact h.peek?_eq live fun i u before => absurd before (Nat.not_lt_zero i)
  · intro paren
    apply h.peek?_eq live
    intro i u before here
    obtain rfl : i = 0 := by omega
    exact paren_kind paren here
  · intro v paren second mention
    apply h.peek?_eq live
    intro i u before here
    obtain rfl | rfl : i = 0 ∨ i = 1 := by omega
    · exact paren_kind paren here
    · cases second.symm.trans here
      simp [mention]

end Facing

/-- The instructions came to the same result and left twins behind. -/
structure Twins (p q : Program) (r r' : Except Fault Flow × Machine) : Prop where
  result : r'.1 = r.1
  twin : Twin p q r.2.advance r'.2.advance

section

variable {p q : Program} {t : Token} {m m' : Machine}

theorem Same.advance (same : Same m m') : Same m.advance m'.advance :=
  { same with }

theorem Facing.behind_live (h : Facing p q t m m') (live : t.kind ≠ .comment) :
    Abridges false (p.onward (m.position + 1)) (q.onward (m'.position + 1)) := by
  have behind := h.behind
  rwa [decide_eq_false live] at behind

/-- Machines that have stayed where they were are twins behind the token. -/
theorem Facing.twin_behind (h : Facing p q t m m') {n n' : Machine} (same : Same n n')
    (commented : n.commented = (m.commented || t.kind = .comment))
    (position : n.position = m.position) (position' : n'.position = m'.position)
    (loop : Option.Rel (LoopTwin p q) n.loop n'.loop) : Twin p q n.advance n'.advance := by
  refine ⟨same.advance, loop, ?_⟩
  simp only [advance, commented, h.live, Bool.false_or, position, position']
  exact h.behind

theorem Facing.twin_inPlace (h : Facing p q t m m') (live : t.kind ≠ .comment) {n n' : Machine}
    (same : Same n n') (inPlace : InPlace m n) (inPlace' : InPlace m' n') :
    Twin p q n.advance n'.advance := by
  apply h.twin_behind same
  · simp [inPlace.commented, live]
  · exact inPlace.position
  · exact inPlace'.position
  · rw [inPlace.loop, inPlace'.loop]
    exact h.twin.loop

/-- The same with the next token stepped over, which must not open a comment. -/
theorem Facing.twin_stepped (h : Facing p q t m m') (live : t.kind ≠ .comment) {u : Token}
    (next : p[m.position + 1]? = some u) (uncommented : u.kind ≠ .comment) {n n' : Machine}
    (same : Same n n') (inPlace : InPlace m n) (inPlace' : InPlace m' n') :
    Twin p q n.advance.advance n'.advance.advance := by
  refine ⟨same.advance.advance, ?_, ?_⟩
  · simp only [advance, inPlace.loop, inPlace'.loop]
    exact h.twin.loop
  · simp only [advance, inPlace.commented, inPlace.position, inPlace'.position, h.live]
    exact Program.abridges_succ (h.behind_live live) next uncommented

theorem arm_loop_twin (argument : (m'.cursor q).argument m.tape = (m.cursor p).argument m.tape)
    (tape : m'.tape = m.tape) (loop : Option.Rel (LoopTwin p q) m.loop m'.loop)
    (body : Abridges false (p.onward (m.position + 1)) (q.onward (m'.position + 1))) :
    Option.Rel (LoopTwin p q) (m.arm p t).2.loop (m'.arm q t).2.loop := by
  rw [arm_eq, arm_eq, tape, argument]
  split
  · exact loop
  · exact .some ⟨rfl, rfl, body⟩

theorem arm_twins (h : Facing p q t m m') (arms : t.kind.arms = true) {n n' : Machine}
    (same : Same n n') (inPlace : InPlace m n) (inPlace' : InPlace m' n') :
    Twins p q (n.arm p t) (n'.arm q t) := by
  obtain ⟨live, -, jumps⟩ := Kind.of_arms arms
  have argument : (n'.cursor q).argument n.tape = (n.cursor p).argument n.tape := by
    simp only [cursor, inPlace.position, inPlace'.position]
    exact h.argument_eq live n.tape
  have body : Abridges false (p.onward (n.position + 1)) (q.onward (n'.position + 1)) := by
    rw [inPlace.position, inPlace'.position]
    exact h.behind_live live
  have loop : Option.Rel (LoopTwin p q) n.loop n'.loop := by
    rw [inPlace.loop, inPlace'.loop]
    exact h.twin.loop
  have agree : Agree (n.arm p t) (n'.arm q t) := arm_agree same argument
  have frame := arm_frame t.kind arms p t n
  have frame' := arm_frame t.kind arms q t n'
  refine ⟨agree.result, h.twin_behind agree.same ?_ ?_ ?_ ?_⟩
  · rw [frame.commented, inPlace.commented]
  · rw [frame.position jumps, inPlace.position]
  · rw [frame'.position jumps, inPlace'.position]
  · exact arm_loop_twin argument same.tape loop body

theorem openLoop_twins (h : Facing p q t m m') (kind : t.kind = .loopStart) :
    Twins p q (m.openLoop p t) (m'.openLoop q t) := by
  have live : t.kind ≠ .comment := by simp [kind]
  have found : ((m.cursor p).findLive? .loopEnd).isNone =
      ((m'.cursor q).findLive? .loopEnd).isNone :=
    Program.findLiveFrom?_isNone_eq (h.behind_live live) rfl rfl
  unfold openLoop
  rw [← found]
  split
  · exact ⟨rfl, h.twin_inPlace live h.twin.same (.refl m) (.refl m')⟩
  · exact arm_twins h (by rw [kind]; rfl) h.twin.same (.refl m) (.refl m')

/-- Loops that have used up a pass go back side by side or end. -/
theorem rewind_twins (h : Facing p q t m m') (live : t.kind ≠ .comment) {n n' : Machine}
    {l l' : Loop} (loops : LoopTwin p q l l') (same : Same n n')
    (commented : n.commented = m.commented) (position : n.position = m.position)
    (position' : n'.position = m'.position) (active : n.loop = some l)
    (active' : n'.loop = some l') : Twins p q (n.rewind l) (n'.rewind l') := by
  unfold rewind
  rw [loops.remaining]
  split
  · refine ⟨rfl, { same with }, ?_, ?_⟩
    · simp only [advance, note, active, active']
      exact .some loops
    · simp only [advance, note, commented, h.live]
      exact loops.body
  · refine ⟨rfl, h.twin_behind { same with } ?_ position position' .none⟩
    simp [commented, live]

theorem closeLoop_twins (h : Facing p q t m m') (kind : t.kind = .loopEnd) :
    Twins p q (m.closeLoop t) (m'.closeLoop t) := by
  have live : t.kind ≠ .comment := by simp [kind]
  have same := h.twin.same
  have loop := h.twin.loop
  generalize active : m.loop = o at loop
  generalize active' : m'.loop = o' at loop
  cases loop with
  | none =>
    simp only [closeLoop, active, active']
    exact ⟨rfl, h.twin_inPlace live same (.refl m) (.refl m')⟩
  | @some l l' loops =>
    have lowered : LoopTwin p q { l with remaining := l.remaining - 1 }
        ⟨l'.start, l.remaining - 1, l.cellDriven⟩ := ⟨rfl, rfl, loops.body⟩
    by_cases out : l.remaining ≤ 0
    · simp only [closeLoop, active, active', loops.remaining, out, ↓reduceIte]
      exact ⟨rfl, h.twin_behind { same with } (by simp [live]) rfl rfl .none⟩
    · simp only [closeLoop, active, active', loops.remaining, loops.cellDriven, same.tape, out,
        ↓reduceIte]
      split
      · split
        · refine rewind_twins h live lowered (Same.store ?_ _) rfl rfl rfl rfl rfl
          exact { same with tape := rfl }
        · exact ⟨rfl, h.twin_behind { same with tape := rfl } (by simp [live]) rfl rfl
            (.some lowered)⟩
      · exact rewind_twins h live lowered { same with tape := rfl } rfl rfl rfl rfl rfl

theorem printLiteral_twins (h : Facing p q t m m') (kind : t.kind = .printLiteral) :
    Twins p q (m.printLiteral p) (m'.printLiteral q) := by
  have live : t.kind ≠ .comment := by simp [kind]
  have first : (m.cursor p).peek? 1 = (m'.cursor q).peek? 1 :=
    h.peek?_eq live fun i u before => absurd before (Nat.not_lt_zero i)
  unfold printLiteral
  rw [← first]
  cases next : (m.cursor p).peek? 1 with
  | none => exact ⟨rfl, h.twin_inPlace live h.twin.same (.refl m) (.refl m')⟩
  | some u =>
    have uncommented : u.kind ≠ .comment := h.printed kind u next
    have emits (bytes : List UInt8) : Agree (m.emit bytes) (m'.emit bytes) ∧
        InPlace m (m.emit bytes).2 ∧ InPlace m' (m'.emit bytes).2 :=
      ⟨emit_agree h.twin.same bytes, emit_inPlace m bytes, emit_inPlace m' bytes⟩
    by_cases escape : u.kind = .escape
    · have second : (m.cursor p).peek? 2 = (m'.cursor q).peek? 2 := by
        apply h.peek?_eq live
        intro i v before here
        obtain rfl : i = 0 := by omega
        cases next.symm.trans here
        exact uncommented
      simp only [escape, ↓reduceIte, ← second]
      obtain ⟨agree, inPlace, inPlace'⟩ :=
        emits (escaped (((m.cursor p).peek? 2).bind Token.first?))
      exact ⟨agree.result, h.twin_inPlace live agree.same inPlace inPlace'⟩
    · simp only [escape, ↓reduceIte]
      obtain ⟨⟨result, same⟩, inPlace, inPlace'⟩ :=
        emits ((u.first?.map Text.charBytes).getD [])
      generalize m.emit ((u.first?.map Text.charBytes).getD []) = r at result same inPlace ⊢
      generalize m'.emit ((u.first?.map Text.charBytes).getD []) = r' at result same inPlace' ⊢
      rcases r with ⟨f | flow, n⟩ <;> rcases r' with ⟨f' | flow', n'⟩ <;> cases result
      · exact ⟨rfl, h.twin_inPlace live same inPlace inPlace'⟩
      · exact ⟨rfl, h.twin_stepped live next uncommented same inPlace inPlace'⟩

theorem dispatch_twins (h : Facing p q t m m') :
    Twins p q (m.dispatch p t) (m'.dispatch q t) := by
  by_cases special : t.kind.jumps = true ∨ t.kind.loops = true
  · unfold dispatch
    cases kind : t.kind <;> simp only [kind, Kind.jumps, Kind.loops, Bool.false_eq_true,
      or_self] at special
    case printLiteral => exact printLiteral_twins h kind
    case newline =>
      refine arm_twins h (by rw [kind]; rfl) ?_ ⟨rfl, rfl, rfl⟩ ⟨rfl, rfl, rfl⟩
      exact { h.twin.same with tape := by rw [h.twin.same.tape] }
    case loopStart => exact openLoop_twins h kind
    case loopEnd => exact closeLoop_twins h kind
    case condStart => exact absurd kind h.branchless
  · obtain ⟨stays, keeps⟩ : t.kind.jumps = false ∧ t.kind.loops = false := by simpa using special
    have agree : Agree (m.dispatch p t) (m'.dispatch q t) :=
      dispatch_agree h.twin.same (fun live => h.argument_eq live m.tape) stays keeps
    have frame := dispatch_frame p t m
    have frame' := dispatch_frame q t m'
    refine ⟨agree.result, h.twin_behind agree.same frame.commented (frame.position stays)
      (frame'.position stays) ?_⟩
    rw [frame.loop keeps, frame'.loop keeps]
    exact h.twin.loop

end

/-- One turn of both machines: they go on as twins or come to the same end. -/
inductive Turned (p q : Program) : Progress → Progress → Prop where
  | running {k k' : Machine} (twin : Twin p q k k') : Turned p q (.running k) (.running k')
  | finished {result : Except Fault Outcome} {last last' : Machine} (same : Same last last') :
      Turned p q (.finished result last) (.finished result last')

theorem settled_turned {p q : Program} {t : Token} {r r' : Except Fault Flow × Machine}
    (h : Twins p q r r') : Turned p q (settled t r) (settled t r') := by
  obtain ⟨res, n⟩ := r
  obtain ⟨res', n'⟩ := r'
  obtain ⟨result, twin⟩ := h
  have same : Same n n' := { twin.same with }
  cases (result : res' = res)
  cases res with
  | error f => exact .finished same
  | ok flow =>
    cases flow with
    | halt => exact .finished { same with }
    | skip => exact .running twin
    | next =>
      by_cases starving : n.tape.stomachValue < 0
      · simp only [settled, Tape.starving, same.tape, starving, decide_true, ↓reduceIte, starve_eq,
          same.output]
        exact .finished { same with output := rfl }
      · simp only [settled, Tape.starving, same.tape, starving, decide_false, Bool.false_eq_true,
          ↓reduceIte]
        exact .running twin

theorem step_turned {p q : Program} {m m' : Machine} (twin : Twin p q m m') :
    (∃ k, m.step p = .running k ∧ Twin p q k m') ∨ Turned p q (m.step p) (m'.step q) := by
  have ahead := twin.ahead
  have flag := twin.same.commented
  generalize commented : m.commented = c at ahead flag
  generalize hp : p.onward m.position = ts at ahead
  generalize hq : q.onward m'.position = us at ahead
  cases ahead with
  | done =>
    have past := Program.of_onward_nil hp
    have past' := Program.of_onward_nil hq
    right
    simp only [step, past, past']
    exact .finished twin.same
  | @kept t ts us branchless printed rest =>
    obtain ⟨here, behind⟩ := Program.of_onward_cons hp
    obtain ⟨here', behind'⟩ := Program.of_onward_cons hq
    have facing : Facing p q t m m' := by
      refine ⟨twin, commented, here, here', branchless, ?_, ?_⟩
      · intro kind u next
        apply printed kind u
        rw [← behind, Program.onward_eq_cons next]
        rfl
      · rw [behind, behind']
        exact rest
    right
    simp only [step, here, here', commented, flag]
    exact settled_turned (dispatch_twins facing)
  | @text t ts us kind rest =>
    obtain ⟨here, behind⟩ := Program.of_onward_cons hp
    refine .inl ⟨m.stepOver t, by simp [step, here, commented], ?_⟩
    refine ⟨{ twin.same with commented := by simp [stepOver, advance, flag, kind] }, twin.loop, ?_⟩
    simp only [stepOver, advance, decide_eq_true kind, behind, hq]
    exact rest
  | @closed t u ts us kind kind' rest =>
    obtain ⟨here, behind⟩ := Program.of_onward_cons hp
    obtain ⟨here', behind'⟩ := Program.of_onward_cons hq
    right
    simp only [step, here, here', commented, flag]
    refine .running ⟨{ twin.same with commented := by simp [stepOver, advance, kind, kind'] },
      twin.loop, ?_⟩
    simp only [stepOver, advance, kind, behind, behind']
    exact rest

theorem execute_same {p q : Program} {m m' : Machine} (twin : Twin p q m m') :
    (m'.execute q).1 = (m.execute p).1 ∧ Same (m.execute p).2 (m'.execute q).2 := by
  -- along the run of the first machine: it is the one that may have comment text to step over
  fun_induction execute p m generalizing m' with
  | case1 m k running ih =>
    rcases step_turned twin with ⟨k', running', waits⟩ | turned
    · cases running.symm.trans running'
      exact ih waits
    · generalize running' : m'.step q = progress at turned
      rw [running] at turned
      cases turned with
      | running twin =>
        rw [execute_of_running running']
        exact ih twin
  | case2 m result last finished =>
    rcases step_turned twin with ⟨k', running', -⟩ | turned
    · cases finished.symm.trans running'
    · generalize finished' : m'.step q = progress at turned
      rw [finished] at turned
      cases turned with
      | finished same =>
        rw [execute_of_finished finished']
        exact ⟨rfl, same⟩

/-- A program runs like what is left of it without the text of its comments. -/
theorem run_same {p q : Program} (h : Abridges false p.toList q.toList) (tape : Tape)
    (console : Console) :
    let r := (ofTape tape console).run p
    let r' := (ofTape tape console).run q
    r'.1 = r.1 ∧ Same r.2 r'.2 := by
  have twin : Twin p q ((ofTape tape console).started p) ((ofTape tape console).started q) :=
    ⟨⟨rfl, rfl, rfl, rfl, rfl⟩, .none, h⟩
  obtain ⟨result, same⟩ := execute_same twin
  unfold started at result same
  simp only [run, result, same.output, true_and]
  exact { same with output := rfl }

end Machine

end HungryTape
