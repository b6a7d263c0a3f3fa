import HungryTape.Proofs.Blame
import HungryTape.Proofs.Frame
import HungryTape.Proofs.Searches
import HungryTape.Proofs.Trails

/-!
A `[` asks whether some `]` behind it will be acted on, and it is meant to fail if there is none. It
reads the text ahead as the machine would walk through it, and leaves comments out, but it does not
know that an `@` prints the next token instead of acting on it. So the answer is right unless an
`@` on the way prints a `;` or a `]`.
-/

namespace HungryTape

namespace Program

/-- How many tokens behind `i` are printed by the one at `i` and so are not acted on. -/
def printed (p : Program) (i : Nat) : Nat :=
  match p[i + 1]? with
  | none => 0
  | some next => if p.isAt .printLiteral i ∧ next.kind ≠ .escape then 1 else 0

/-- Some `]` is acted on during the walk from `i` on. -/
def closes (p : Program) (skip : Nat → Nat) (i : Nat) : Bool :=
  (p.walk skip false i).any (p.isAt .loopEnd)

/-- An `@` that prints a `;` or a `]`. -/
def printsMark (p : Program) (i : Nat) : Bool :=
  p.printed i = 1 && (p.isAt .comment (i + 1) || p.isAt .loopEnd (i + 1))

variable {p : Program} {i : Nat}

theorem printed_eq_zero {t : Token} (here : p[i]? = some t) (kind : t.kind ≠ .printLiteral) :
    p.printed i = 0 := by
  unfold printed
  split
  · rfl
  · simp [isAt, here, kind]

theorem printed_cases (p : Program) (i : Nat) :
    p.printed i = 0 ∨
      p.printed i = 1 ∧ p.isAt .printLiteral i = true ∧ i + 1 < p.size := by
  unfold printed
  split
  · exact .inl rfl
  · rename_i next there
    obtain ⟨inside, -⟩ := Array.getElem?_eq_some_iff.mp there
    split
    · rename_i prints
      exact .inr ⟨rfl, prints.1, inside⟩
    · exact .inl rfl

/-- The walk with the printed tokens and the one without meet the same `]`, unless one of these
was printed, or a `;` was. -/
theorem closes_walk_eq (commented : Bool)
    (candid : ∀ q ∈ p.walk p.printed commented i, p.printsMark q = false) :
    (p.walk p.printed commented i).any (p.isAt .loopEnd) =
      (p.walk (fun _ => 0) commented i).any (p.isAt .loopEnd) := by
  fun_induction walk p p.printed commented i with
  | case1 i inside ih =>
    rw [walk_comment (Array.getElem?_eq_getElem inside)]
    exact ih candid
  | case2 commented i inside live ih =>
    obtain rfl : commented = false := by simpa using live
    have here : p[i]? = some p[i] := Array.getElem?_eq_getElem inside
    obtain ⟨marks, candid⟩ := List.forall_mem_cons.mp candid
    rw [walk_live here, List.any_cons, List.any_cons, ih candid]
    rcases p.printed_cases i with printed | ⟨printed, prints, inside'⟩
    · rw [printed]
    · -- the other walk also takes the printed token, which is neither a `;` nor a `]`
      have there : p[i + 1]? = some p[i + 1] := Array.getElem?_eq_getElem inside'
      have kind : p[i].kind = .printLiteral := by simpa [isAt_eq inside] using prints
      obtain ⟨code, unclosed⟩ : p[i + 1].kind ≠ .comment ∧ p.isAt .loopEnd (i + 1) = false := by
        simpa [printsMark, printed, isAt_eq inside'] using marks
      simp only [kind, printed, reduceCtorEq, decide_false, Nat.add_zero, walk_live there,
        List.any_cons, unclosed, Bool.false_or, code]
  | case3 commented i past =>
    rw [walk_past (Array.getElem?_eq_none_iff.mpr (Nat.not_lt.mp past))]

end Program

/-- What is wrong with an argument is never said of the instruction as a whole. -/
theorem Cursor.argument_error {c : Cursor} {tape : Tape} {f : Fault}
    (h : c.argument tape = .error f) : f.isGeneral = false := by
  unfold argument at h
  split at h
  · split at h
    · obtain ⟨-, rfl⟩ := Token.literal_eq_error_iff.mp (Fault.error_of_map h)
      rfl
    · split at h
      · cases h
        rfl
      · unfold mentioned at h
        split at h
        · split at h
          · obtain ⟨-, rfl⟩ := Token.cell_eq_error_iff.mp (Fault.error_of_map h)
            rfl
          · cases h
        · cases h
    · cases h
  · cases h

namespace Machine

variable {p : Program} {t : Token} {m m' : Machine} {flow : Flow}

theorem arm_not_unterminated (location : Location) :
    (m.arm p t).1 ≠ .error (.unterminatedLoop location) := by
  intro unterminated
  rcases Fault.error_of_bind (settle_undecided unterminated) with misread | ⟨argument, -, h⟩
  · cases Cursor.argument_error misread
  · cases argument <;> cases h

theorem unterminated_iff (kind : t.kind = .loopStart) :
    (m.dispatch p t).1 = .error (.unterminatedLoop t.location) ↔
      p.closes (fun _ => 0) (m.position + 1) = false := by
  have search : (m.cursor p).findLive? .loopEnd = none ↔
      p.closes (fun _ => 0) (m.position + 1) = false := by
    have code : Kind.loopEnd ≠ .comment := nofun
    unfold Cursor.findLive?
    rw [Program.findLiveFrom?_eq code, List.find?_eq_none]
    simp [Program.closes, cursor]
  rw [← search]
  simp only [dispatch, kind, openLoop]
  cases found : (m.cursor p).findLive? .loopEnd with
  | none => simp
  | some e => simpa using arm_not_unterminated t.location

/-- An `@` goes on behind what it has printed. -/
theorem printLiteral_ok (here : p[m.position]? = some t) (kind : t.kind = .printLiteral)
    (h : m.printLiteral p = (.ok flow, m')) :
    m'.position = m.position + p.printed m.position := by
  have prints : p.isAt .printLiteral m.position = true := Program.isAt_iff.mpr ⟨t, here, kind⟩
  unfold printLiteral at h
  unfold Program.printed
  split at h
  · rename_i last
    cases h
    have last : p[m.position + 1]? = none := last
    rw [last]
    rfl
  · rename_i next found
    have found : p[m.position + 1]? = some next := found
    rw [found]
    split at h
    · rename_i escape
      have stays := (emit_inPlace m (escaped (((m.cursor p).peek? 2).bind Token.first?))).position
      rw [h] at stays
      simpa [escape] using stays
    · rename_i shown
      split at h
      · rename_i emitted
        cases h
        have stays := (emit_inPlace m ((next.first?.map Text.charBytes).getD [])).position
        rw [emitted] at stays
        simpa [prints, shown, advance] using stays
      · cases h

/-- Where a token leads that is neither a `]` nor a `{`. -/
theorem running_walks (taken : m.taken? p = some t) (unclosed : t.kind ≠ .loopEnd)
    (unbraced : t.kind ≠ .condStart) (running : m.step p = .running m') :
    m'.position = m.position + 1 + p.printed m.position ∧
      m'.commented = decide (t.kind = .comment) := by
  obtain ⟨live, here⟩ := taken?_eq_some_iff.mp taken
  obtain ⟨flow, a, dispatched, rfl⟩ := dispatched_of_running taken running
  obtain ⟨commented, position, -⟩ := frame_of_dispatch dispatched
  constructor
  · suffices a.position = m.position + p.printed m.position by
      simp only [advance, this]
      omega
    by_cases prints : t.kind = .printLiteral
    · simp only [dispatch, prints] at dispatched
      exact printLiteral_ok here prints dispatched
    · have stays : t.kind.jumps = false := by
        cases kind : t.kind <;> simp_all [Kind.jumps]
      rw [position stays, Program.printed_eq_zero here prints, Nat.add_zero]
  · simp [advance, commented, live]

/-- One more turn, as far as the walk is concerned. -/
theorem trail_walks_succ {a : Machine} {n : Nat} (running : m.step p = .running a)
    (plain : ∀ b ∈ m.trail p 1,
      p.isAt .loopEnd b.position = false ∧ p.isAt .condStart b.position = false)
    (walks : (a.trail p n).map position <+: p.walk p.printed a.commented a.position) :
    (m.trail p (1 + n)).map position <+: p.walk p.printed m.commented m.position := by
  rw [trail_add (after_succ_iff.mpr ⟨m, rfl, running⟩), List.map_append]
  cases taken : m.taken? p with
  | none =>
    rw [trail_one_of_idle taken, List.map_nil, List.nil_append]
    cases step_running running with
    | ignored here commented =>
      rw [commented, Program.walk_comment here]
      exact walks
    | checked taken' => cases taken.symm.trans taken'
    | skipped taken' => cases taken.symm.trans taken'
  | some t =>
    obtain ⟨live, here⟩ := taken?_eq_some_iff.mp taken
    rw [trail_one taken] at plain ⊢
    obtain ⟨unclosed, unbraced⟩ : t.kind ≠ .loopEnd ∧ t.kind ≠ .condStart := by
      simpa [Program.isAt, here] using plain
    obtain ⟨position, commented⟩ := running_walks taken unclosed unbraced running
    rw [live, Program.walk_live here, ← position, ← commented]
    exact (List.prefix_cons_inj _).mpr walks

/-- As long as it has met no `]` and no `{`, the machine acts on the tokens of the walk. -/
theorem trail_walks {n : Nat} (reached : m.after p n = some m')
    (plain : ∀ b ∈ m.trail p n,
      p.isAt .loopEnd b.position = false ∧ p.isAt .condStart b.position = false) :
    (m.trail p (n + 1)).map position <+: p.walk p.printed m.commented m.position := by
  induction n generalizing m with
  | zero =>
    cases taken : m.taken? p with
    | none =>
      rw [trail_one_of_idle taken]
      exact List.nil_prefix
    | some t =>
      obtain ⟨live, here⟩ := taken?_eq_some_iff.mp taken
      rw [trail_one taken, live, Program.walk_live here]
      exact ⟨_, rfl⟩
  | succ n ih =>
    obtain ⟨a, next, rest⟩ := after_of_le (Nat.le_add_left 1 n) reached
    obtain ⟨m, here, running⟩ := after_succ_iff.mp next
    cases here
    rw [Nat.add_comm n 1, trail_add next, List.forall_mem_append] at plain
    rw [Nat.add_comm]
    exact trail_walks_succ running plain.1 (ih rest plain.2)

/-- A `[` fails as never closed if and only if no `]` is met by a walk through the text ahead that
leaves comments out and takes every other token, printed or not. So it fails if and only if no `]`
will be acted on, unless an `@` on the way prints a `;` or a `]`. What will be acted on is the walk
that leaves out the printed tokens as well: whatever the machine does from there on, it acts on the
tokens of that walk until it has met a `]` or a `{`. -/
theorem unterminated_iff_walk_open (kind : t.kind = .loopStart) :
    ((m.dispatch p t).1 = .error (.unterminatedLoop t.location) ↔
      p.closes (fun _ => 0) (m.position + 1) = false) ∧
    ((∀ q ∈ p.walk p.printed false (m.position + 1), p.printsMark q = false) →
      ((m.dispatch p t).1 = .error (.unterminatedLoop t.location) ↔
        p.closes p.printed (m.position + 1) = false)) ∧
    ∀ (a k : Machine) (n : Nat), a.position = m.position + 1 → a.commented = false →
      a.after p n = some k →
      (∀ b ∈ a.trail p n,
        p.isAt .loopEnd b.position = false ∧ p.isAt .condStart b.position = false) →
      (a.trail p (n + 1)).map position <+: p.walk p.printed false (m.position + 1) := by
  refine ⟨unterminated_iff kind, ?_, ?_⟩
  · intro candid
    have same : p.closes p.printed (m.position + 1) = p.closes (fun _ => 0) (m.position + 1) :=
      Program.closes_walk_eq false candid
    rw [same]
    exact unterminated_iff kind
  · intro a k n position live reached plain
    rw [← position, ← live]
    exact trail_walks reached plain

/-- The `[` of `[@[;]` looks past the printed `[`, and the `]` is in a comment. -/
theorem unterminated_iff_walk_open_comment :
    let p : Program := #[⟨.loopStart, "[", ⟨1, 1⟩⟩, ⟨.printLiteral, "@", ⟨1, 2⟩⟩,
      ⟨.loopStart, "[", ⟨1, 3⟩⟩, ⟨.comment, ";", ⟨1, 4⟩⟩, ⟨.loopEnd, "]", ⟨1, 5⟩⟩]
    let m := ofTape ⟨#[0], 0, 0⟩ { input := { rest := [] } }
    p.walk p.printed false 1 = [1, 3] ∧
      (m.dispatch p ⟨.loopStart, "[", ⟨1, 1⟩⟩).1 = .error (.unterminatedLoop ⟨1, 1⟩) := by
  intro p m
  have walk : p.walk p.printed false 1 = [1, 3] := by decide +kernel
  obtain ⟨-, agrees, -⟩ :=
    unterminated_iff_walk_open (p := p) (t := ⟨.loopStart, "[", ⟨1, 1⟩⟩) (m := m) rfl
  have candid : ∀ q ∈ p.walk p.printed false 1, p.printsMark q = false := by
    rw [walk]
    decide +kernel
  exact ⟨walk, (agrees candid).mpr (by decide +kernel)⟩

/-- The `]` of `[@;]` is acted on, but the `[` takes the printed `;` for a comment and fails. The
`]` of `[@]` is printed, but the `[` takes it for the end of its loop. -/
theorem printed_marks_mislead :
    let first : Token := ⟨.loopStart, "[", ⟨1, 1⟩⟩
    let closed : Program :=
      #[first, ⟨.printLiteral, "@", ⟨1, 2⟩⟩, ⟨.comment, ";", ⟨1, 3⟩⟩, ⟨.loopEnd, "]", ⟨1, 4⟩⟩]
    let unclosed : Program := #[first, ⟨.printLiteral, "@", ⟨1, 2⟩⟩, ⟨.loopEnd, "]", ⟨1, 3⟩⟩]
    let m := ofTape ⟨#[0], 0, 0⟩ { input := { rest := [] } }
    Program.ofSource "[@;]" none = .ok closed ∧ m.taken? closed = some first ∧
    (m.dispatch closed first).1 = .error (.unterminatedLoop ⟨1, 1⟩) ∧
    closed.walk closed.printed false 1 = [1, 3] ∧ closed.closes closed.printed 1 = true ∧
    Program.ofSource "[@]" none = .ok unclosed ∧ m.taken? unclosed = some first ∧
    (m.dispatch unclosed first).1 = .ok .next ∧
    unclosed.walk unclosed.printed false 1 = [1] ∧ unclosed.closes unclosed.printed 1 = false := by
  intro first closed unclosed m
  have scanned : Scanner.collect #[] .start "[@;]".toList = closed := by decide +kernel
  have scanned' : Scanner.collect #[] .start "[@]".toList = unclosed := by decide +kernel
  have missed : (m.cursor closed).findLive? .loopEnd = none := by decide +kernel
  have found : (m.cursor unclosed).findLive? .loopEnd = some 2 := by decide +kernel
  refine ⟨congrArg Except.ok scanned, rfl, ?_, by decide +kernel, by decide +kernel,
    congrArg Except.ok scanned', rfl, ?_, by decide +kernel, by decide +kernel⟩
  · simp only [dispatch, first, openLoop, missed, Option.isNone_none, if_true]
  · simp only [dispatch, first, openLoop, found, Option.isNone_some]
    rfl

end Machine

end HungryTape
