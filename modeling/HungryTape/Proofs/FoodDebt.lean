import HungryTape.Proofs.Arming
import HungryTape.Proofs.TapeBounds

/-!
A cell-driven loop over the stomach can take the last unit of food and go back before anybody looks.
The debt is then one unit and it does not last: the loop has been through its body before, so the
first token of the body that is not a `?` is one after which the stomach is looked at.
-/

namespace HungryTape

/-- Strictly between the two positions there is nothing but `?`. -/
def OnlyPasses (p : Program) (i j : Nat) : Prop :=
  ∀ k, i < k → k < j → ∃ t, p[k]? = some t ∧ t.kind = .pass

/-- The first token after the position that is not a `?` is plain. -/
def MeetsPlain (p : Program) (i : Nat) : Prop :=
  ∃ x t, i < x ∧ OnlyPasses p i x ∧ p[x]? = some t ∧ t.kind.plain = true

theorem OnlyPasses.refl (p : Program) (i : Nat) : OnlyPasses p i (i + 1) := by
  intro k after before
  omega

theorem OnlyPasses.extend {p : Program} {i j : Nat} {t : Token} (h : OnlyPasses p i j)
    (here : p[j]? = some t) (pass : t.kind = .pass) : OnlyPasses p i (j + 1) := by
  intro k after before
  rcases Nat.lt_or_eq_of_le (Nat.le_of_lt_succ before) with inner | rfl
  · exact h k after inner
  · exact ⟨t, here, pass⟩

theorem MeetsPlain.not_past {p : Program} {i j : Nat} (h : MeetsPlain p i)
    (only : OnlyPasses p i j) : ∃ x t, i < x ∧ j ≤ x ∧ OnlyPasses p i x ∧ p[x]? = some t ∧
      t.kind.plain = true := by
  obtain ⟨x, t, after, passes, here, plain⟩ := h
  refine ⟨x, t, after, ?_, passes, here, plain⟩
  apply Nat.le_of_not_lt
  intro before
  obtain ⟨u, here', pass⟩ := only x after before
  cases here.symm.trans here'
  rw [pass] at plain
  cases plain

/-- A token that comes right after the `?` of such a body is a `?` or plain. -/
theorem MeetsPlain.kind {p : Program} {i j : Nat} {t : Token} (h : MeetsPlain p i)
    (only : OnlyPasses p i j) (after : i < j) (here : p[j]? = some t) :
    t.kind = .pass ∨ t.kind.plain = true := by
  obtain ⟨x, u, -, le, passes, here', plain⟩ := h.not_past only
  rcases Nat.lt_or_eq_of_le le with before | rfl
  · obtain ⟨v, here'', pass⟩ := passes j after before
    cases here.symm.trans here''
    exact .inl pass
  · cases here.symm.trans here'
    exact .inr plain

theorem MeetsPlain.inside {p : Program} {i j : Nat} (h : MeetsPlain p i)
    (only : OnlyPasses p i j) : p[j]? ≠ none := by
  obtain ⟨x, t, -, le, -, here, -⟩ := h.not_past only
  have := (Array.getElem?_eq_some_iff.mp here).1
  intro past
  have := Array.getElem?_eq_none_iff.mp past
  omega

namespace Machine

/-- The machine has only taken `?` since it came to the start of the loop, and a cell that drives
the loop still holds the number of passes. -/
structure Idle (p : Program) (m : Machine) (l : Loop) : Prop where
  live : m.commented = false
  only : OnlyPasses p l.start m.position
  count : l.cellDriven = true → l.remaining = m.tape.value

/-- A debt of one unit that the next token other than `?` brings to light. -/
structure Indebted (p : Program) (m : Machine) (l : Loop) : Prop where
  owed : m.tape.stomachValue = -1
  live : m.commented = false
  active : m.loop = some l
  meets : MeetsPlain p l.start
  only : OnlyPasses p l.start m.position

structure Ledger (p : Program) (m : Machine) : Prop where
  valid : m.tape.Valid
  behind : m.ArmedBehind p
  /-- A machine that has come beyond the `?` of a body has met a plain token there. -/
  body : ∀ l, m.loop = some l → MeetsPlain p l.start ∨ m.Idle p l
  debt : m.tape.stomachValue < 0 → ∃ l, m.Indebted p l

theorem Ledger.start {p : Program} {capacity stomach : Nat} {tape : Tape} {console : Console}
    (made : Tape.ofCapacity capacity stomach = .ok tape) : (ofTape tape console).Ledger p := by
  have valid := Tape.ofCapacity_valid made
  obtain ⟨inside, rfl⟩ := Tape.ofCapacity_ok made
  refine ⟨valid, by simp [ArmedBehind, ofTape], by simp [ofTape], ?_⟩
  intro negative
  simp [ofTape, Tape.stomachValue, inside] at negative

theorem Ledger.fed {p : Program} {m : Machine} {t : Token} (ledger : m.Ledger p)
    (taken : m.taken? p = some t) (pass : t.kind ≠ .pass) (plain : t.kind.plain = false) :
    0 ≤ m.tape.stomachValue := by
  have here := (taken?_eq_some_iff.mp taken).2
  apply Int.not_lt.mp
  intro negative
  obtain ⟨l, debt⟩ := ledger.debt negative
  rcases debt.meets.kind debt.only (ledger.behind l debt.active).1 here with kind | kind
  · exact pass kind
  · simp [plain] at kind

/-- A checked token leaves the body alone, arms another loop or closes the one in progress. -/
theorem Ledger.body_checked {p : Program} {t : Token} {m m' : Machine} (ledger : m.Ledger p)
    (taken : m.taken? p = some t) (moved : Moved m t.kind .next m') :
    ∀ l, m'.advance.loop = some l → MeetsPlain p l.start ∨ m'.advance.Idle p l := by
  obtain ⟨live, here⟩ := taken?_eq_some_iff.mp taken
  generalize kind : t.kind = k at moved
  cases moved with
  | ahead plain position loop =>
    intro l active
    have active : m.loop = some l := loop ▸ active
    rcases ledger.body l active with meets | idle
    · exact .inl meets
    · exact .inl ⟨m.position, t, (ledger.behind l active).1, idle.only, here, kind ▸ plain⟩
  | armed arms position start count loop commented =>
    intro l active
    cases loop.symm.trans active
    refine .inr ⟨commented.trans live, ?_, count⟩
    simp only [advance, position, start]
    exact .refl p _
  | closed position loop =>
    intro l active
    cases loop.symm.trans active

theorem Ledger.body_skipped {p : Program} {t : Token} {m m' : Machine} (ledger : m.Ledger p)
    (taken : m.taken? p = some t) (moved : Moved m t.kind .skip m') :
    ∀ l, m'.advance.loop = some l → MeetsPlain p l.start ∨ m'.advance.Idle p l := by
  have here := (taken?_eq_some_iff.mp taken).2
  generalize kind : t.kind = k at moved
  cases moved with
  | passed =>
    intro l active
    rcases ledger.body l active with meets | idle
    · exact .inl meets
    · exact .inr ⟨idle.live, idle.only.extend here kind, idle.count⟩
  | @rewound _ l active left position loop tape commented =>
    intro l' active'
    cases loop.symm.trans active'
    rcases ledger.body l active with meets | idle
    · exact .inl meets
    · refine .inr ⟨commented.trans idle.live, ?_, ?_⟩
      · simp only [advance, position]
        exact .refl p _
      · intro driven
        have paid : m'.tape.value = m.tape.value - 1 := by
          rw [tape, if_pos driven, ledger.valid.value_store]
        simp only [advance, paid, idle.count driven]

/-- Only a pass that the stomach itself pays for makes a debt, and only if the body is not idle:
otherwise the stomach would still hold the number of passes. -/
theorem Ledger.rewound_debt {p : Program} {m m' : Machine} {l : Loop} (ledger : m.Ledger p)
    (fed : 0 ≤ m.tape.stomachValue) (active : m.loop = some l) (left : 1 < l.remaining)
    (tape : m'.tape = if l.cellDriven then m.tape.store (m.tape.value - 1) else m.tape)
    (negative : m'.tape.stomachValue < 0) :
    l.cellDriven = true ∧ m.tape.current = m.tape.stomach ∧ m'.tape.stomachValue = -1 ∧
      MeetsPlain p l.start := by
  by_cases driven : l.cellDriven = true
  · rw [tape, if_pos driven, ledger.valid.stomachValue_store] at negative ⊢
    by_cases same : m.tape.current = m.tape.stomach
    · have value := Tape.value_of_stomach same
      rw [if_pos same] at negative ⊢
      refine ⟨driven, same, by omega, ?_⟩
      rcases ledger.body l active with meets | idle
      · exact meets
      · have count := idle.count driven
        omega
    · rw [if_neg same] at negative
      omega
  · rw [tape, if_neg driven] at negative
    omega

theorem Stepped.ledger {p : Program} {m m' : Machine} (h : Stepped p m m')
    (ledger : m.Ledger p) : m'.Ledger p := by
  have valid : m'.tape.Valid := h.keeps.valid ledger.valid
  have behind : m'.ArmedBehind p := h.armedBehind ledger.behind
  cases h with
  | ignored here commented =>
    refine ⟨valid, behind, ?_, ?_⟩
    · intro l active
      rcases ledger.body l active with meets | idle
      · exact .inl meets
      · simp [idle.live] at commented
    · intro negative
      obtain ⟨l, debt⟩ := ledger.debt negative
      simp [debt.live] at commented
  | checked taken dispatched fed =>
    refine ⟨valid, behind, ledger.body_checked taken (dispatch_moved dispatched), ?_⟩
    intro negative
    exact absurd fed (Int.not_le.mpr negative)
  | @skipped t m' taken dispatched =>
    obtain ⟨live, here⟩ := taken?_eq_some_iff.mp taken
    have moved := dispatch_moved dispatched
    refine ⟨valid, behind, ledger.body_skipped taken moved, ?_⟩
    -- nobody looks at the stomach here: a `?` hands a debt on, and a `]` can make one
    intro negative
    generalize kind : t.kind = k at moved
    cases moved with
    | passed =>
      obtain ⟨l, debt⟩ := ledger.debt negative
      exact ⟨l, debt.owed, debt.live, debt.active, debt.meets, debt.only.extend here kind⟩
    | rewound active left position loop tape commented =>
      have fed := ledger.fed taken (by simp [kind]) (by rw [kind]; rfl)
      obtain ⟨-, -, owed, meets⟩ := ledger.rewound_debt fed active left tape negative
      refine ⟨_, owed, commented.trans live, loop, meets, ?_⟩
      simp only [advance, position]
      exact .refl p _

theorem after_ledger {p : Program} {capacity stomach : Nat} {tape : Tape} {console : Console}
    {k : Machine} {n : Nat} (made : Tape.ofCapacity capacity stomach = .ok tape)
    (h : (ofTape tape console).after p n = some k) : k.Ledger p :=
  after_invariant (Ledger p) (fun _ _ ledger step => step.ledger ledger) (.start made) h

/-- The machine takes a `]` that goes back in a cell-driven loop, and the cell that pays for the
pass is the stomach. -/
def RewindsOnStomach (p : Program) (m : Machine) : Prop :=
  ∃ t l m', m.taken? p = some t ∧ t.kind = .loopEnd ∧ m.loop = some l ∧ l.cellDriven = true ∧
    m.dispatch p t = (.ok .skip, m') ∧ m'.position = l.start ∧ m.tape.current = m.tape.stomach

theorem Stepped.debt_source {p : Program} {m m' : Machine} (h : Stepped p m m')
    (ledger : m.Ledger p) (negative : m'.tape.stomachValue < 0) :
    (m'.tape = m.tape ∧ ∃ t, m.taken? p = some t ∧ t.kind = .pass) ∨ m.RewindsOnStomach p := by
  cases h with
  | ignored here commented =>
    obtain ⟨l, debt⟩ := ledger.debt negative
    simp [debt.live] at commented
  | checked taken dispatched fed => exact absurd fed (Int.not_le.mpr negative)
  | @skipped t m' taken dispatched =>
    have moved := dispatch_moved dispatched
    generalize kind : t.kind = k at moved
    cases moved with
    | passed => exact .inl ⟨rfl, t, taken, kind⟩
    | @rewound _ l active left position loop tape commented =>
      have fed := ledger.fed taken (by simp [kind]) (by rw [kind]; rfl)
      obtain ⟨driven, same, -, -⟩ := ledger.rewound_debt fed active left tape negative
      exact .inr ⟨t, l, m', taken, kind, active, driven, dispatched, position, same⟩

/-- A debt was made by the last token that was not a `?`. -/
theorem debt_history {p : Program} {capacity stomach : Nat} {tape : Tape} {console : Console}
    {m : Machine} {n : Nat} (made : Tape.ofCapacity capacity stomach = .ok tape)
    (h : (ofTape tape console).after p n = some m) (negative : m.tape.stomachValue < 0) :
    ∃ i a, i < n ∧ (ofTape tape console).after p i = some a ∧ a.RewindsOnStomach p ∧
      ∀ j, i < j → j < n → ∃ b t, (ofTape tape console).after p j = some b ∧
        b.taken? p = some t ∧ t.kind = .pass := by
  induction n generalizing m with
  | zero =>
    cases h
    obtain ⟨l, debt⟩ := (Ledger.start (p := p) made).debt negative
    exact absurd debt.active (by simp [ofTape])
  | succ n ih =>
    obtain ⟨k, reached, running⟩ := after_succ_iff.mp h
    have ledger : k.Ledger p := after_ledger made reached
    rcases (step_running running).debt_source ledger negative with ⟨tape, t, taken, pass⟩ | rewinds
    · obtain ⟨i, a, before, ha, rewinds, between⟩ := ih reached (tape ▸ negative)
      refine ⟨i, a, by omega, ha, rewinds, ?_⟩
      intro j later earlier
      rcases Nat.lt_or_eq_of_le (Nat.le_of_lt_succ earlier) with inner | rfl
      · exact between j later inner
      · exact ⟨k, t, reached, taken, pass⟩
    · exact ⟨n, k, by omega, reached, rewinds, fun j later earlier => by omega⟩

/-- Whenever the machine takes a token, at most one unit of food is owed. A debt was made by a `]`
that went back over the stomach, with only `?` taken since, and the token is none of those that
would pass it on. So a line is only ever paid for by a stomach that is not negative. -/
theorem food_debt_bounded {capacity stomach : Nat} {tape : Tape}
    (made : Tape.ofCapacity capacity stomach = .ok tape) (console : Console) (p : Program)
    {n : Nat} {m : Machine} {t : Token}
    (reached : (ofTape tape console).after p n = some m) (taken : m.taken? p = some t) :
    -1 ≤ m.tape.stomachValue ∧
    (m.tape.stomachValue = -1 →
      (∃ i a, i < n ∧ (ofTape tape console).after p i = some a ∧ a.RewindsOnStomach p ∧
        ∀ j, i < j → j < n → ∃ b u, (ofTape tape console).after p j = some b ∧
          b.taken? p = some u ∧ u.kind = .pass) ∧
      t.kind ≠ .newline ∧ t.kind ≠ .loopStart ∧ t.kind ≠ .loopEnd ∧ t.kind ≠ .terminate) ∧
    (t.kind = .newline →
      0 ≤ m.tape.stomachValue ∧ m.tape.feed.stomachValue = m.tape.stomachValue - 1) := by
  have ledger : m.Ledger p := after_ledger made reached
  refine ⟨?_, ?_, ?_⟩
  · by_cases negative : m.tape.stomachValue < 0
    · obtain ⟨l, debt⟩ := ledger.debt negative
      exact Int.le_of_eq debt.owed.symm
    · omega
  · intro owed
    refine ⟨debt_history made reached (by omega), ?_⟩
    have kind (pass : t.kind ≠ .pass) : t.kind.plain ≠ false := by
      intro plain
      have := ledger.fed taken pass plain
      omega
    refine ⟨?_, ?_, ?_, ?_⟩ <;>
      · intro bad
        rw [bad] at kind
        exact kind (by simp) rfl
  · intro newline
    have fed := ledger.fed taken (by simp [newline]) (by rw [newline]; rfl)
    refine ⟨fed, ledger.valid.stomachValue_feed ?_⟩
    unfold Cell.least
    omega

/-- `+++`, a newline and `?++%(2)]`. The first `]` takes a unit of food that is not there, and the
next pass gives it back. -/
def borrowing : Program :=
  #[⟨.increment, "+", ⟨1, 1⟩⟩, ⟨.increment, "+", ⟨1, 2⟩⟩, ⟨.increment, "+", ⟨1, 3⟩⟩,
    ⟨.newline, "\n", ⟨1, 4⟩⟩, ⟨.pass, "?", ⟨2, 1⟩⟩, ⟨.increment, "+", ⟨2, 2⟩⟩,
    ⟨.increment, "+", ⟨2, 3⟩⟩, ⟨.modulo, "%", ⟨2, 4⟩⟩, ⟨.parenOpen, "(", ⟨2, 5⟩⟩,
    ⟨.number, "2", ⟨2, 6⟩⟩, ⟨.parenClose, ")", ⟨2, 7⟩⟩, ⟨.loopEnd, "]", ⟨2, 8⟩⟩]

theorem food_debt_bounded_borrowing :
    ∃ m t, (ofTape ⟨#[0], 0, 0⟩ { input := { rest := [] } }).after borrowing 13 = some m ∧
      m.taken? borrowing = some t ∧ t.kind = .increment ∧ m.tape.stomachValue = -1 ∧
      ∃ i a, i < 13 ∧
        (ofTape ⟨#[0], 0, 0⟩ { input := { rest := [] } }).after borrowing i = some a ∧
        a.RewindsOnStomach borrowing := by
  have made : Tape.ofCapacity 1 0 = .ok ⟨#[0], 0, 0⟩ := rfl
  have reached :
      (ofTape ⟨#[0], 0, 0⟩ { input := { rest := [] } }).after borrowing 13 = some _ := rfl
  obtain ⟨-, debt, -⟩ := food_debt_bounded made _ borrowing reached rfl
  obtain ⟨i, a, before, earlier, rewinds, -⟩ := (debt rfl).1
  exact ⟨_, _, reached, rfl, rfl, rfl, i, a, before, earlier, rewinds⟩

end Machine

end HungryTape
