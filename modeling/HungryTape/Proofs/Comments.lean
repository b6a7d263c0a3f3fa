import HungryTape.Proofs.Frame
import HungryTape.Proofs.Turns

/-!
Where the comments of a program lie does not depend on how it runs, and the comment flag is meant
to say whether the machine stands in one of them. It does, as long as a `{` whose condition fails
does not go on behind a `}` that lies in a comment: the search for that `}` does not look for
comments, so the rest of such a comment is executed.
-/

namespace HungryTape

namespace Program

/-- Whether a position lies in a comment behind the `;` that opens it. A `;` opens a comment only
where there is none, and the newline that ends a comment belongs to it. -/
def hidden (p : Program) : Nat → Bool
  | 0 => false
  | i + 1 =>
    match p[i]? with
    | none => false
    | some t => if p.hidden i then t.kind ≠ .newline else t.kind = .comment

/-- A `;` that lies in no comment. -/
def Opens (p : Program) (s : Nat) : Prop :=
  p.hidden s = false ∧ ∃ t, p[s]? = some t ∧ t.kind = .comment

/-- The comment that opens at `s` goes on at `i`: no newline has ended it before. -/
def Covers (p : Program) (s i : Nat) : Prop :=
  p.Opens s ∧ s < i ∧ ∀ k, s < k → k < i → ∃ t, p[k]? = some t ∧ t.kind ≠ .newline

theorem hidden_succ {p : Program} {i : Nat} {t : Token} (here : p[i]? = some t) :
    p.hidden (i + 1) = if p.hidden i then decide (t.kind ≠ .newline) else t.kind = .comment := by
  simp [hidden, here]

theorem Covers.extend {p : Program} {s i : Nat} {t : Token} (h : p.Covers s i)
    (here : p[i]? = some t) (kind : t.kind ≠ .newline) : p.Covers s (i + 1) := by
  obtain ⟨opens, before, open_⟩ := h
  refine ⟨opens, Nat.lt_succ_of_lt before, ?_⟩
  intro k after upto
  rcases Nat.lt_or_eq_of_le (Nat.le_of_lt_succ upto) with inner | rfl
  · exact open_ k after inner
  · exact ⟨t, here, kind⟩

theorem Opens.covers_succ {p : Program} {s : Nat} (h : p.Opens s) : p.Covers s (s + 1) := by
  refine ⟨h, Nat.lt_succ_self s, ?_⟩
  intro k after upto
  omega

/-- A comment that covers the next position opens here, or covers this one and goes on. -/
theorem covers_succ {p : Program} {s i : Nat} (h : p.Covers s (i + 1)) :
    s = i ∧ p.Opens i ∨ p.Covers s i ∧ ∃ t, p[i]? = some t ∧ t.kind ≠ .newline := by
  obtain ⟨opens, before, open_⟩ := h
  rcases Nat.lt_or_eq_of_le (Nat.le_of_lt_succ before) with inner | rfl
  · refine .inr ⟨⟨opens, inner, ?_⟩, open_ i inner (Nat.lt_succ_self i)⟩
    intro k after upto
    exact open_ k after (Nat.lt_succ_of_lt upto)
  · exact .inl ⟨rfl, opens⟩

theorem hidden_iff_covers {p : Program} {i : Nat} : p.hidden i = true ↔ ∃ s, p.Covers s i := by
  induction i with
  | zero =>
    constructor
    · simp [hidden]
    · rintro ⟨s, -, before, -⟩
      omega
  | succ i ih =>
    constructor
    · intro hidden
      cases here : p[i]? with
      | none => simp [Program.hidden, here] at hidden
      | some t =>
        rw [hidden_succ here] at hidden
        by_cases earlier : p.hidden i = true
        · obtain ⟨s, covers⟩ := ih.mp earlier
          exact ⟨s, covers.extend here (by simpa [earlier] using hidden)⟩
        · have live : p.hidden i = false := by simpa using earlier
          exact ⟨i, Opens.covers_succ ⟨live, t, here, by simpa [earlier] using hidden⟩⟩
    · rintro ⟨s, covers⟩
      rcases covers_succ covers with ⟨-, live, t, here, kind⟩ | ⟨covers, t, here, kind⟩
      · simp [hidden_succ here, live, kind]
      · simp [hidden_succ here, ih.mpr ⟨s, covers⟩, kind]

end Program

namespace Machine

/-- The machine acts on a token that lies in a comment and does not open it. -/
def TakesComment (p : Program) (m : Machine) : Prop :=
  ∃ t s, m.taken? p = some t ∧ p.Covers s m.position

/-- The machine takes a `{` whose condition does not hold, and the next `}`, behind which it goes
on, lies in a comment. -/
structure Strays (p : Program) (m m' : Machine) (x : Nat) : Prop where
  fails : ∃ t c, m.taken? p = some t ∧ t.kind = .condStart ∧
    (m.cursor p).condition m.tape t.location = .ok c ∧ c.holds = false
  target : (m.cursor p).find? .condEnd = some x
  covers : ∃ s, p.Covers s x
  running : m.step p = .running m'
  position : m'.position = x + 1

/-- The comment flag says where the machine stands, and no loop goes back into a comment. -/
structure Aligned (p : Program) (m : Machine) : Prop where
  flag : m.commented = p.hidden m.position
  loop : ∀ l, m.loop = some l → p.hidden (l.start + 1) = false

theorem Aligned.not_takesComment {p : Program} {m : Machine} (aligned : m.Aligned p) :
    ¬ m.TakesComment p := by
  rintro ⟨t, s, taken, covers⟩
  have live : m.commented = false := (taken?_eq_some_iff.mp taken).1
  have hidden : p.hidden m.position = true := Program.hidden_iff_covers.mpr ⟨s, covers⟩
  rw [← aligned.flag, live] at hidden
  cases hidden

/-- The token that a `{` goes to ends every comment if it is a newline. -/
theorem branch_lands {p : Program} {t : Token} {m m' : Machine}
    (taken : m.taken? p = some t) (kind : t.kind = .condStart)
    (branched : m.branch p t = (.ok .next, m')) (running : m.step p = .running m'.advance) :
    p.hidden (m'.position + 1) = false ∨ m.Strays p m'.advance m'.position := by
  obtain ⟨c, header, found⟩ := branch_ok branched
  obtain ⟨u, target, resumes⟩ := Program.test_of_findFrom? found
  have target : p[m'.position]? = some u := target
  have resumes : u.kind = c.resume := by simpa using resumes
  cases holds : c.holds with
  | true =>
    have newline : u.kind = .newline := by simp [resumes, Comparison.resume, holds]
    exact .inl (by simp [Program.hidden_succ target, newline])
  | false =>
    have resume : c.resume = .condEnd := by simp [Comparison.resume, holds]
    have condEnd : u.kind = .condEnd := resumes.trans resume
    by_cases hidden : p.hidden m'.position = true
    · rw [resume] at found
      exact .inr ⟨⟨t, c, taken, kind, header, holds⟩, found,
        Program.hidden_iff_covers.mp hidden, running, rfl⟩
    · exact .inl (by simp [Program.hidden_succ target, hidden, condEnd])

theorem Aligned.hidden_behind {p : Program} {t : Token} {m : Machine} (aligned : m.Aligned p)
    (taken : m.taken? p = some t) : p.hidden (m.position + 1) = decide (t.kind = .comment) := by
  obtain ⟨live, here⟩ := taken?_eq_some_iff.mp taken
  have outside : p.hidden m.position = false := aligned.flag ▸ live
  simp [Program.hidden_succ here, outside]

theorem stay_aligned {p : Program} {t : Token} {m m' : Machine} {flow : Flow}
    (taken : m.taken? p = some t) (dispatched : m.dispatch p t = (.ok flow, m'))
    (aligned : m.Aligned p) (stays : t.kind.jumps = false) : m'.advance.Aligned p := by
  have live : m.commented = false := (taken?_eq_some_iff.mp taken).1
  have behind := aligned.hidden_behind taken
  obtain ⟨commented, position, -⟩ := frame_of_dispatch dispatched
  constructor
  · simp only [advance, position stays, commented, live, behind, Bool.false_or]
  · intro l active
    have moved := dispatch_moved dispatched
    generalize kind : t.kind = k at moved stays behind
    cases moved with
    | ahead plain position loop => exact aligned.loop l (loop ▸ active)
    | passed | halted => exact aligned.loop l active
    | armed arms position start count loop commented =>
      cases loop.symm.trans active
      simp [start, behind, (Kind.of_arms arms).1]
    | closed | rewound => cases stays

theorem loopEnd_aligned {p : Program} {t : Token} {m m' : Machine} {flow : Flow}
    (taken : m.taken? p = some t) (dispatched : m.dispatch p t = (.ok flow, m'))
    (aligned : m.Aligned p) (kind : t.kind = .loopEnd) : m'.advance.Aligned p := by
  have live : m.commented = false := (taken?_eq_some_iff.mp taken).1
  have behind := aligned.hidden_behind taken
  obtain ⟨commented, -, -⟩ := frame_of_dispatch dispatched
  have flag : m'.commented = false := by simp [commented, live, kind]
  have moved := dispatch_moved dispatched
  rw [kind] at moved behind
  cases moved with
  | ahead plain => cases plain
  | armed arms => cases arms
  | closed position loop =>
    refine ⟨by simp [advance, flag, position, behind], ?_⟩
    intro l active
    cases loop.symm.trans active
  | @rewound _ l active left position loop tape commented =>
    have start := aligned.loop l active
    refine ⟨by simp [advance, flag, position, start], ?_⟩
    intro l' active'
    cases loop.symm.trans active'
    exact start

/-- One token keeps the flag right, unless it is a `{` that goes on inside a comment. -/
theorem dispatch_aligned {p : Program} (noLiteral : ∀ t ∈ p, t.kind ≠ .printLiteral)
    {t : Token} {m m' : Machine} {flow : Flow} (taken : m.taken? p = some t)
    (dispatched : m.dispatch p t = (.ok flow, m')) (running : m.step p = .running m'.advance)
    (aligned : m.Aligned p) : m'.advance.Aligned p ∨ ∃ x, m.Strays p m'.advance x := by
  obtain ⟨live, here⟩ := taken?_eq_some_iff.mp taken
  cases jumps : t.kind.jumps with
  | false => exact .inl (stay_aligned taken dispatched aligned jumps)
  | true =>
    cases kind : t.kind <;> simp only [kind, Kind.jumps, Bool.false_eq_true] at jumps
    case loopEnd => exact .inl (loopEnd_aligned taken dispatched aligned kind)
    case printLiteral => exact absurd kind (noLiteral t (Array.mem_of_getElem? here))
    case condStart =>
      obtain ⟨commented, -, loop⟩ := frame_of_dispatch dispatched
      have loop : m'.loop = m.loop := loop (kind ▸ rfl)
      have branched : m.branch p t = (.ok flow, m') := by
        simpa only [dispatch, kind] using dispatched
      obtain ⟨rfl, -, -⟩ := branch_onward branched
      rcases branch_lands taken kind branched running with outside | strays
      · refine .inl ⟨by simp [advance, commented, live, kind, outside], ?_⟩
        intro l active
        exact aligned.loop l (loop ▸ active)
      · exact .inr ⟨m'.position, strays⟩

theorem step_aligned {p : Program} (noLiteral : ∀ t ∈ p, t.kind ≠ .printLiteral)
    {m m' : Machine} (running : m.step p = .running m') (aligned : m.Aligned p) :
    m'.Aligned p ∨ ∃ x, m.Strays p m' x := by
  cases step_running running with
  | @ignored t here commented =>
    have hidden : p.hidden m.position = true := aligned.flag ▸ commented
    exact .inl ⟨by simp [stepOver, advance, Program.hidden_succ here, hidden], aligned.loop⟩
  | checked taken dispatched fed =>
    exact dispatch_aligned noLiteral taken dispatched running aligned
  | skipped taken dispatched =>
    exact dispatch_aligned noLiteral taken dispatched running aligned

/-- As long as no `{` has gone on inside a comment the flag is right. -/
theorem after_aligned {p : Program} (noLiteral : ∀ t ∈ p, t.kind ≠ .printLiteral)
    {m k : Machine} {n : Nat} (start : m.Aligned p) (h : m.after p n = some k) :
    k.Aligned p ∨ ∃ i a b x, i < n ∧ m.after p i = some a ∧ m.after p (i + 1) = some b ∧
      a.Strays p b x := by
  induction n generalizing k with
  | zero =>
    cases h
    exact .inl start
  | succ n ih =>
    obtain ⟨a, reached, running⟩ := after_succ_iff.mp h
    rcases ih reached with aligned | ⟨i, b, c, x, before, earlier⟩
    · rcases step_aligned noLiteral running aligned with aligned | ⟨x, strays⟩
      · exact .inl aligned
      · exact .inr ⟨n, a, k, x, Nat.lt_succ_self n, reached, h, strays⟩
    · exact .inr ⟨i, b, c, x, Nat.lt_succ_of_lt before, earlier⟩

theorem Strays.condEnd {p : Program} {a b : Machine} {x : Nat} (strays : a.Strays p b x) :
    ∃ t, p[x]? = some t ∧ t.kind = .condEnd := by
  obtain ⟨t, target, kind⟩ := Program.test_of_findFrom? strays.target
  exact ⟨t, target, by simpa using kind⟩

/-- A `{` leaves the flag clear. -/
theorem Strays.live {p : Program} {a b : Machine} {x : Nat} (strays : a.Strays p b x) :
    b.commented = false := by
  obtain ⟨t, -, taken, kind, -⟩ := strays.fails
  obtain ⟨live, -⟩ := taken?_eq_some_iff.mp taken
  have acts {r : Except Fault Flow} {m' : Machine} {u : Token} (taken' : a.taken? p = some u)
      (dispatched : a.dispatch p u = (r, m')) : m'.advance.commented = false := by
    cases taken.symm.trans taken'
    simp [advance, (frame_of_dispatch dispatched).commented, live, kind]
  cases step_running strays.running with
  | ignored _ commented => simp [live] at commented
  | checked taken' dispatched fed => exact acts taken' dispatched
  | skipped taken' dispatched => exact acts taken' dispatched

theorem Strays.takesComment {p : Program} {a b : Machine} {x : Nat} (strays : a.Strays p b x)
    (inside : x + 1 < p.size) : b.TakesComment p := by
  obtain ⟨t, target, kind⟩ := strays.condEnd
  obtain ⟨s, covers⟩ := strays.covers
  have covers : p.Covers s b.position := by
    rw [strays.position]
    exact covers.extend target (by simp [kind])
  have here : p[b.position]? = some p[x + 1] := by
    rw [strays.position]
    exact Array.getElem?_eq_getElem inside
  exact ⟨_, s, taken?_eq_some_iff.mpr ⟨strays.live, here⟩, covers⟩

theorem inside_of_later {p : Program} {m a b : Machine} {i j : Nat} (later : i < j)
    (ha : m.after p i = some a) (hb : m.after p j = some b) : a.position < p.size := by
  obtain ⟨next, hnext, -⟩ := after_of_le later hb
  obtain ⟨a', ha', running⟩ := after_succ_iff.mp hnext
  cases ha.symm.trans ha'
  have inside {t : Token} (here : p[a.position]? = some t) : a.position < p.size :=
    (Array.getElem?_eq_some_iff.mp here).1
  cases step_running running with
  | ignored here commented => exact inside here
  | checked taken dispatched fed => exact inside (taken?_eq_some_iff.mp taken).2
  | skipped taken dispatched => exact inside (taken?_eq_some_iff.mp taken).2

/-- A fresh machine. -/
theorem ofTape_aligned (p : Program) (tape : Tape) (console : Console) :
    (ofTape tape console).Aligned p :=
  ⟨rfl, nofun⟩

/-- The text of a comment is executed if and only if a `{` whose condition fails goes on behind a
`}` in a comment with something behind it. So no program in whose comments there is no `}`
executes any of them. An `@` would hide a `;`, so there is none. -/
theorem comment_taken_iff_strays {p : Program} (noLiteral : ∀ t ∈ p, t.kind ≠ .printLiteral)
    (tape : Tape) (console : Console) :
    let m := ofTape tape console
    ((∃ n k, m.after p n = some k ∧ k.TakesComment p) ↔
      ∃ n a b x, m.after p n = some a ∧ a.Strays p b x ∧ x + 1 < p.size) ∧
    ((∀ s x t, p.Covers s x → p[x]? = some t → t.kind ≠ .condEnd) →
      ∀ n k, m.after p n = some k → ¬ k.TakesComment p) := by
  intro m
  have source {n : Nat} {k : Machine} (reached : m.after p n = some k)
      (takes : k.TakesComment p) :
      ∃ n a b x, m.after p n = some a ∧ a.Strays p b x ∧ x + 1 < p.size := by
    rcases after_aligned noLiteral (ofTape_aligned p tape console) reached with aligned |
      ⟨i, a, b, x, before, ha, hb, strays⟩
    · exact absurd takes aligned.not_takesComment
    · have inside : b.position < p.size := by
        rcases Nat.lt_or_eq_of_le before with later | rfl
        · exact inside_of_later later hb reached
        · cases hb.symm.trans reached
          obtain ⟨t, s, taken, -⟩ := takes
          exact (Array.getElem?_eq_some_iff.mp (taken?_eq_some_iff.mp taken).2).1
      exact ⟨i, a, b, x, ha, strays, strays.position ▸ inside⟩
  refine ⟨⟨?_, ?_⟩, ?_⟩
  · rintro ⟨n, k, reached, takes⟩
    exact source reached takes
  · rintro ⟨n, a, b, x, reached, strays, inside⟩
    have next : m.after p (n + 1) = some b := after_succ_iff.mpr ⟨a, reached, strays.running⟩
    exact ⟨n + 1, b, next, strays.takesComment inside⟩
  · intro noCondEnd n k reached takes
    obtain ⟨-, a, b, x, -, strays, -⟩ := source reached takes
    obtain ⟨s, covers⟩ := strays.covers
    obtain ⟨t, target, kind⟩ := strays.condEnd
    exact noCondEnd s x t covers target kind

/-- The `}` in the comment of the first line ends the conditional, and so the `=` behind it is
executed. -/
def leaking : Program :=
  #[⟨.condStart, "\x7b", ⟨1, 1⟩⟩, ⟨.parenOpen, "(", ⟨1, 2⟩⟩, ⟨.number, "1", ⟨1, 3⟩⟩,
    ⟨.parenClose, ")", ⟨1, 4⟩⟩, ⟨.unknown, " ", ⟨1, 5⟩⟩, ⟨.greater, "g", ⟨1, 6⟩⟩,
    ⟨.unknown, " ", ⟨1, 7⟩⟩, ⟨.number, "2", ⟨1, 8⟩⟩, ⟨.comment, ";", ⟨1, 9⟩⟩,
    ⟨.condEnd, "\x7d", ⟨1, 10⟩⟩, ⟨.printInt, "=", ⟨1, 11⟩⟩, ⟨.newline, "\n", ⟨1, 12⟩⟩,
    ⟨.condEnd, "\x7d", ⟨2, 1⟩⟩, ⟨.condEnd, "\x7d", ⟨2, 2⟩⟩]

theorem leaking_covers : leaking.Covers 8 10 := by
  refine ⟨⟨by decide, _, rfl, rfl⟩, by decide, ?_⟩
  intro k after upto
  obtain rfl : k = 9 := by omega
  exact ⟨_, rfl, by decide⟩

theorem leaking_after : (ofTape ⟨#[0], 0, 0⟩ { input := { rest := [] } }).after leaking 1 =
    some { ofTape ⟨#[0], 0, 0⟩ { input := { rest := [] } } with
      position := 10, comparison := some ⟨1, .greater, 2⟩ } := by
  decide +kernel

theorem leaking_takes_comment :
    Program.ofSource "\x7b(1) g 2;\x7d=\n\x7d\x7d" none = .ok leaking ∧
    (∀ t ∈ leaking, t.kind ≠ .printLiteral) ∧ Tape.ofCapacity 1 0 = .ok ⟨#[0], 0, 0⟩ ∧
    ∃ k t, (ofTape ⟨#[0], 0, 0⟩ { input := { rest := [] } }).after leaking 1 = some k ∧
      k.taken? leaking = some t ∧ t.kind = .printInt ∧ leaking.Covers 8 k.position ∧
      k.TakesComment leaking := by
  have scanned : Scanner.collect #[] .start "\x7b(1) g 2;\x7d=\n\x7d\x7d".toList = leaking := by
    decide +kernel
  exact ⟨congrArg Except.ok scanned, by decide, rfl, _, _, leaking_after, rfl, rfl,
    leaking_covers, _, 8, rfl, leaking_covers⟩

theorem comment_taken_iff_strays_leaking :
    ∃ n a b x, (ofTape ⟨#[0], 0, 0⟩ { input := { rest := [] } }).after leaking n = some a ∧
      a.Strays leaking b x ∧ x + 1 < leaking.size := by
  have noLiteral : ∀ t ∈ leaking, t.kind ≠ .printLiteral := by decide
  obtain ⟨executed, -⟩ :=
    comment_taken_iff_strays noLiteral ⟨#[0], 0, 0⟩ { input := { rest := [] } }
  exact executed.mp ⟨1, _, leaking_after, _, 8, rfl, leaking_covers⟩

end Machine

end HungryTape
