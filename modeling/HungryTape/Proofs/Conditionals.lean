import HungryTape.Proofs.Numerals
import HungryTape.Proofs.Ranges
import HungryTape.Proofs.Searches

namespace HungryTape

namespace Program

/-- What the operand at `i` comes to, in a header that starts at `location`. -/
inductive Operand (p : Program) (tape : Tape) (location : Location) (i : Nat) :
    Except Fault Int → Prop where
  | literal {u : Token} {v : Int} (here : p[i]? = some u) (number : u.kind = .number)
      (spelled : Numeral.Denotes u.lexeme.toList v) (fits : -2147483648 ≤ v ∧ v ≤ 2147483647) :
      Operand p tape location i (.ok v)
  /-- A number that no cell can hold, or a lexeme that is not a number at all -/
  | overflow {u : Token} (here : p[i]? = some u) (number : u.kind = .number)
      (unfit : ∀ v, Numeral.Denotes u.lexeme.toList v → ¬ (-2147483648 ≤ v ∧ v ≤ 2147483647)) :
      Operand p tape location i (.error (.overflow (.literal u.lexeme) u.location))
  | cell {u n : Token} {index : Nat} {v : Int} (here : p[i]? = some u) (mention : u.kind = .mention)
      (there : p[i + 1]? = some n) (number : n.kind = .number)
      (spelled : Numeral.Denotes n.lexeme.toList index) (inside : tape.cells[index]? = some v) :
      Operand p tape location i (.ok v)
  | offTape {u n : Token} {index : Int} (here : p[i]? = some u) (mention : u.kind = .mention)
      (there : p[i + 1]? = some n) (number : n.kind = .number)
      (spelled : Numeral.Denotes n.lexeme.toList index)
      (word : -9223372036854775808 ≤ index ∧ index ≤ 9223372036854775807)
      (outside : index < 0 ∨ tape.capacity ≤ index) :
      Operand p tape location i (.error (.cellOutOfRange index tape.capacity n.location))
  /-- An index that is reported as the greatest word, for it is none or no number at all -/
  | farOff {u n : Token} (here : p[i]? = some u) (mention : u.kind = .mention)
      (there : p[i + 1]? = some n) (number : n.kind = .number)
      (noWord : ∀ index, Numeral.Denotes n.lexeme.toList index →
        ¬ (-9223372036854775808 ≤ index ∧ index ≤ 9223372036854775807))
      (outside : ∀ index : Nat, Numeral.Denotes n.lexeme.toList index → tape.capacity ≤ index) :
      Operand p tape location i
        (.error (.cellOutOfRange 9223372036854775807 tape.capacity n.location))
  | noIndex {u : Token} (here : p[i]? = some u) (mention : u.kind = .mention)
      (missing : ∀ n, p[i + 1]? = some n → n.kind ≠ .number) :
      Operand p tape location i (.error (.malformedCondition (.noCellIndex u.location) location))
  | other {u : Token} (here : p[i]? = some u) (number : u.kind ≠ .number)
      (mention : u.kind ≠ .mention) :
      Operand p tape location i (.error (.malformedCondition (.notAnOperand u) location))
  | ended (past : p[i]? = none) :
      Operand p tape location i (.error (.malformedCondition .endsInOperand location))

/-- What the header of the `{` at `i` comes to. -/
inductive Header (p : Program) (tape : Tape) (location : Location) (i : Nat) :
    Except Fault Comparison → Prop where
  | badFirst {f : Fault} (first : p.Operand tape location (i + 2) (.error f)) :
      Header p tape location i (.error f)
  | noOperator {a : Int} (first : p.Operand tape location (i + 2) (.ok a))
      (past : p[i + 5]? = none) :
      Header p tape location i (.error (.malformedCondition .endsBeforeOperator location))
  | badSecond {a : Int} {o : Token} {f : Fault} (first : p.Operand tape location (i + 2) (.ok a))
      (operator : p[i + 5]? = some o) (second : p.Operand tape location (i + 7) (.error f)) :
      Header p tape location i (.error f)
  | wellFormed {a b : Int} {o : Token} (first : p.Operand tape location (i + 2) (.ok a))
      (operator : p[i + 5]? = some o) (second : p.Operand tape location (i + 7) (.ok b)) :
      Header p tape location i (.ok ⟨a, o.kind, b⟩)

theorem exists_operand_of_number {p : Program} {tape : Tape} {location : Location} {i : Nat}
    {u : Token} (here : p[i]? = some u) (number : u.kind = .number) :
    ∃ r, p.Operand tape location i r := by
  by_cases fits : ∃ v, Numeral.Denotes u.lexeme.toList v ∧ -2147483648 ≤ v ∧ v ≤ 2147483647
  · obtain ⟨v, spelled, fits⟩ := fits
    exact ⟨_, .literal here number spelled fits⟩
  · exact ⟨_, .overflow here number fun v spelled range => fits ⟨v, spelled, range⟩⟩

theorem exists_operand_of_index {p : Program} {tape : Tape} {location : Location} {i : Nat}
    {u n : Token} (here : p[i]? = some u) (mention : u.kind = .mention)
    (there : p[i + 1]? = some n) (number : n.kind = .number) :
    ∃ r, p.Operand tape location i r := by
  by_cases inside : ∃ index : Nat, Numeral.Denotes n.lexeme.toList index ∧ index < tape.capacity
  · obtain ⟨index, spelled, inside⟩ := inside
    exact ⟨_, .cell here mention there number spelled (Array.getElem?_eq_getElem inside)⟩
  · have outside (index : Nat) (spelled : Numeral.Denotes n.lexeme.toList index) :
        tape.capacity ≤ index :=
      Nat.not_lt.mp fun on => inside ⟨index, spelled, on⟩
    by_cases word : ∃ index, Numeral.Denotes n.lexeme.toList index ∧
        -9223372036854775808 ≤ index ∧ index ≤ 9223372036854775807
    · obtain ⟨index, spelled, word⟩ := word
      refine ⟨_, .offTape here mention there number spelled word ?_⟩
      cases index with
      | ofNat index => exact .inr (Int.ofNat_le.mpr (outside index spelled))
      | negSucc k => exact .inl (Int.negSucc_lt_zero k)
    · exact ⟨_, .farOff here mention there number
        (fun index spelled range => word ⟨index, spelled, range⟩) outside⟩

/-- There is always something that an operand comes to. -/
theorem exists_operand (p : Program) (tape : Tape) (location : Location) (i : Nat) :
    ∃ r, p.Operand tape location i r := by
  cases here : p[i]? with
  | none => exact ⟨_, .ended here⟩
  | some u =>
    by_cases number : u.kind = .number
    · exact exists_operand_of_number here number
    · by_cases mention : u.kind = .mention
      · by_cases index : ∃ n, p[i + 1]? = some n ∧ n.kind = .number
        · obtain ⟨n, there, number⟩ := index
          exact exists_operand_of_index here mention there number
        · exact ⟨_, .noIndex here mention fun n there number => index ⟨n, there, number⟩⟩
      · exact ⟨_, .other here number mention⟩

theorem exists_header (p : Program) (tape : Tape) (location : Location) (i : Nat) :
    ∃ r, p.Header tape location i r := by
  obtain ⟨left, first⟩ := exists_operand p tape location (i + 2)
  cases left with
  | error f => exact ⟨_, .badFirst first⟩
  | ok a =>
    cases operator : p[i + 5]? with
    | none => exact ⟨_, .noOperator first operator⟩
    | some o =>
      obtain ⟨right, second⟩ := exists_operand p tape location (i + 7)
      cases right with
      | error f => exact ⟨_, .badSecond first operator second⟩
      | ok b => exact ⟨_, .wellFormed first operator second⟩

end Program

theorem Token.integer?_eq_some_iff {t : Token} {v : Int} :
    t.integer? = some v ↔ Numeral.Denotes t.lexeme.toList v :=
  Numeral.integer?_eq_some_iff

namespace Cursor

variable {p : Program} {tape : Tape} {location : Location} {i k : Nat}

theorem mentioned_eq_none {c : Cursor} (missing : ∀ n, c.peek? k = some n → n.kind ≠ .number) :
    c.mentioned tape k = .ok none := by
  unfold mentioned
  split
  · rename_i n there
    rw [if_neg (missing n there)]
  · rfl

theorem mentioned_of_number {c : Cursor} {n : Token} (index : c.peek? k = some n)
    (number : n.kind = .number) : c.mentioned tape k = (n.cell tape).map some := by
  simp only [mentioned, index, number, if_true]

/-- The operand that the relation gives is the one that is read. -/
theorem conditionOperand_of_operand {r : Except Fault Int}
    (h : p.Operand tape location (i + k) r) :
    (⟨p, i⟩ : Cursor).conditionOperand tape location k = r := by
  have peek {u : Token} (here : p[i + k]? = some u) : (⟨p, i⟩ : Cursor).peek? k = some u := here
  have indexed {n : Token} (there : p[i + k + 1]? = some n) (number : n.kind = .number) :
      (⟨p, i⟩ : Cursor).mentioned tape (k + 1) = (n.cell tape).map some :=
    mentioned_of_number there number
  cases h with
  | literal here number spelled fits =>
    have read := Token.literal_eq_ok_iff.mpr ⟨Token.integer?_eq_some_iff.mpr spelled, fits⟩
    simp only [conditionOperand, peek here, number, read]
  | overflow here number unfit =>
    simp only [← Token.integer?_eq_some_iff] at unfit
    have read := Token.literal_eq_error_iff.mpr ⟨unfit, rfl⟩
    simp only [conditionOperand, peek here, number, read]
  | @cell u n index v here mention there number spelled inside =>
    have found : n.cell tape = .ok v :=
      Token.cell_eq_ok_iff.mpr ⟨index, Token.integer?_eq_some_iff.mpr spelled, inside⟩
    simp only [conditionOperand, peek here, mention, indexed there number, found]
    rfl
  | @offTape u n index here mention there number spelled word outside =>
    have spelled := Token.integer?_eq_some_iff.mpr spelled
    have failed : n.cell tape = .error (.cellOutOfRange index tape.capacity n.location) := by
      refine Token.cell_eq_error_iff.mpr ⟨?_, by rw [Token.reported_of_word spelled word]⟩
      intro k named
      cases spelled.symm.trans named
      omega
    simp only [conditionOperand, peek here, mention, indexed there number, failed]
    rfl
  | @farOff u n here mention there number noWord outside =>
    simp only [← Token.integer?_eq_some_iff] at noWord outside
    have failed : n.cell tape =
        .error (.cellOutOfRange 9223372036854775807 tape.capacity n.location) :=
      Token.cell_eq_error_iff.mpr ⟨outside, by rw [Token.reported_of_no_word noWord]⟩
    simp only [conditionOperand, peek here, mention, indexed there number, failed]
    rfl
  | noIndex here mention missing =>
    have read : (⟨p, i⟩ : Cursor).mentioned tape (k + 1) = .ok none := mentioned_eq_none missing
    simp only [conditionOperand, peek here, mention, read]
  | other here number mention => simp only [conditionOperand, peek here]
  | ended past =>
    have past : (⟨p, i⟩ : Cursor).peek? k = none := past
    simp only [conditionOperand, past]

theorem condition_of_header {r : Except Fault Comparison} (h : p.Header tape location i r) :
    (⟨p, i⟩ : Cursor).condition tape location = r := by
  cases h with
  | badFirst first =>
    rw [condition, conditionOperand_of_operand first]
    rfl
  | noOperator first past =>
    have kind : (⟨p, i⟩ : Cursor).kind? 5 = none := congrArg (Option.map Token.kind) past
    rw [condition, conditionOperand_of_operand first, kind]
    rfl
  | badSecond first operator second =>
    have kind : (⟨p, i⟩ : Cursor).kind? 5 = some _ := congrArg (Option.map Token.kind) operator
    rw [condition, conditionOperand_of_operand first, kind, conditionOperand_of_operand second]
    rfl
  | wellFormed first operator second =>
    have kind : (⟨p, i⟩ : Cursor).kind? 5 = some _ := congrArg (Option.map Token.kind) operator
    rw [condition, conditionOperand_of_operand first, kind, conditionOperand_of_operand second]
    rfl

end Cursor

/-- One of the six comparisons, and it is true of its operands. -/
def Comparison.Satisfied (c : Comparison) : Prop :=
  c.operator = .greater ∧ c.left > c.right ∨
  c.operator = .less ∧ c.left < c.right ∨
  c.operator = .equal ∧ c.left = c.right ∨
  c.operator = .greaterOrEqual ∧ c.left ≥ c.right ∨
  c.operator = .lessOrEqual ∧ c.left ≤ c.right ∨
  c.operator = .notEqual ∧ c.left ≠ c.right

theorem Comparison.holds_iff {c : Comparison} : c.holds = true ↔ c.Satisfied := by
  unfold holds Satisfied
  cases c.operator <;> simp

namespace Machine

variable {p : Program} {t : Token} {m : Machine} {c : Comparison}

/-- The machine that has taken note of a comparison. -/
def compared (c : Comparison) (location : Location) (m : Machine) : Machine :=
  { m with comparison := some c }.note (.compared c location)

/-- Where a conditional goes on once its header has been read. -/
structure Resumes (p : Program) (t : Token) (c : Comparison) (kind : Kind)
    (defect : ConditionDefect) (m : Machine) : Prop where
  /-- Without the food or the loop of a newline, and without forgetting the comparison -/
  found : ∀ x, p.First kind m.position x →
    m.dispatch p t = (.ok .next, { m.compared c t.location with position := x }) ∧
    (0 ≤ m.tape.stomachValue →
      m.step p = .running { m.compared c t.location with position := x + 1 })
  missing : (∀ x, ¬ p.First kind m.position x) →
    m.dispatch p t =
      (.error (.malformedCondition defect t.location), m.compared c t.location)

theorem dispatch_condStart (kind : t.kind = .condStart) : m.dispatch p t = m.branch p t := by
  simp only [dispatch, kind]

theorem branch_of_header (header : (m.cursor p).condition m.tape t.location = .ok c) :
    m.branch p t =
      match (m.cursor p).find? c.resume with
      | some x => (.ok .next, { m.compared c t.location with position := x })
      | none =>
        (.error (.malformedCondition (if c.holds then .noNewline else .noEnd) t.location),
          m.compared c t.location) := by
  simp only [branch, header]
  rfl

theorem resumes_of_header (taken : m.taken? p = some t) (kind : t.kind = .condStart)
    (header : (m.cursor p).condition m.tape t.location = .ok c) :
    m.Resumes p t c c.resume (if c.holds then .noNewline else .noEnd) := by
  have branches := dispatch_condStart (p := p) (m := m) kind
  rw [branch_of_header header] at branches
  constructor
  · intro x first
    have found : (m.cursor p).find? c.resume = some x := Cursor.find?_eq_some_iff.mpr first
    have goes : m.dispatch p t = (.ok .next, { m.compared c t.location with position := x }) := by
      rw [branches, found]
    refine ⟨goes, ?_⟩
    intro fed
    have fed : m.tape.starving = false := by simpa [Tape.starving] using fed
    rw [step_of_taken taken, goes]
    simp only [settled, compared, note, fed, Bool.false_eq_true, if_false]
    rfl
  · intro nowhere
    have nothing : (m.cursor p).find? c.resume = none := by
      cases found : (m.cursor p).find? c.resume with
      | none => rfl
      | some x => exact absurd (Cursor.find?_eq_some_iff.mp found) (nowhere x)
    rw [branches, nothing]

/-- A conditional is read off the positions of its tokens. There is exactly one thing that its
header comes to. If that is a fault, it is the fault of the conditional, and nothing else happens.
If it is a comparison, then that is stored, and the machine goes on behind the next newline if the
comparison is satisfied, and behind the next `}` if it is not. Neither of these tokens is acted on,
comments do not hide them, and the conditional fails if there is none. The tape never changes. -/
theorem conditional_by_position (taken : m.taken? p = some t) (kind : t.kind = .condStart) :
    (∃ r, p.Header m.tape t.location m.position r ∧
      ∀ r', p.Header m.tape t.location m.position r' → r' = r) ∧
    (∀ f, p.Header m.tape t.location m.position (.error f) → m.dispatch p t = (.error f, m)) ∧
    (∀ c, p.Header m.tape t.location m.position (.ok c) →
      (c.Satisfied → m.Resumes p t c .newline .noNewline) ∧
      (¬ c.Satisfied → m.Resumes p t c .condEnd .noEnd)) ∧
    (m.step p).machine.tape = m.tape := by
  have read {r : Except Fault Comparison} (h : p.Header m.tape t.location m.position r) :
      (m.cursor p).condition m.tape t.location = r :=
    Cursor.condition_of_header h
  refine ⟨?_, ?_, ?_, ?_⟩
  · obtain ⟨r, header⟩ := Program.exists_header p m.tape t.location m.position
    exact ⟨r, header, fun r' header' => (read header').symm.trans (read header)⟩
  · intro f header
    rw [dispatch_condStart kind]
    simp only [branch, read header]
  · intro c header
    have resumes := resumes_of_header taken kind (read header)
    constructor
    · intro satisfied
      have holds := Comparison.holds_iff.mpr satisfied
      rwa [Comparison.resume, holds] at resumes
    · intro unsatisfied
      have fails : c.holds = false := by simpa using mt Comparison.holds_iff.mp unsatisfied
      rwa [Comparison.resume, fails] at resumes
  · rw [step_of_taken taken, (settled_keeps t _).1, dispatch_condStart kind, branch_tape]

/-- The condition holds, with a sign that no number of a source has, and the next newline is the one
that ends a comment. -/
def remarked : Program :=
  #[⟨.condStart, "\x7b", ⟨1, 1⟩⟩, ⟨.parenOpen, "(", ⟨1, 2⟩⟩, ⟨.mention, "$", ⟨1, 3⟩⟩,
    ⟨.number, "0", ⟨1, 4⟩⟩, ⟨.parenClose, ")", ⟨1, 5⟩⟩, ⟨.greater, "g", ⟨1, 6⟩⟩,
    ⟨.unknown, " ", ⟨1, 7⟩⟩, ⟨.number, "-3", ⟨1, 8⟩⟩, ⟨.comment, ";", ⟨1, 10⟩⟩,
    ⟨.newline, "\n", ⟨1, 11⟩⟩, ⟨.condEnd, "\x7d", ⟨2, 1⟩⟩]

theorem conditional_by_position_remarked :
    let m := ofTape ⟨#[5], 0, 0⟩ { input := { rest := [] } }
    Program.Header remarked m.tape ⟨1, 1⟩ 0 (.ok ⟨5, .greater, -3⟩) ∧
      Program.First remarked .newline 0 9 ∧
      m.step remarked =
        .running { m with comparison := some ⟨5, .greater, -3⟩, position := 10 } := by
  intro m
  have left : Program.Operand remarked m.tape ⟨1, 1⟩ 2 (.ok 5) :=
    .cell (u := ⟨.mention, "$", ⟨1, 3⟩⟩) (n := ⟨.number, "0", ⟨1, 4⟩⟩) rfl rfl rfl rfl
      (Numeral.integer?_eq_some_iff.mp rfl) rfl
  have right : Program.Operand remarked m.tape ⟨1, 1⟩ 7 (.ok (-3)) :=
    .literal (u := ⟨.number, "-3", ⟨1, 8⟩⟩) rfl rfl (Numeral.integer?_eq_some_iff.mp rfl)
      (by decide)
  have operator : remarked[5]? = some ⟨.greater, "g", ⟨1, 6⟩⟩ := rfl
  have header : Program.Header remarked m.tape ⟨1, 1⟩ 0 (.ok ⟨5, .greater, -3⟩) :=
    .wellFormed left operator right
  have first : Program.First remarked .newline 0 9 :=
    (Cursor.find?_eq_some_iff (c := ⟨remarked, 0⟩)).mp (by decide +kernel)
  have satisfied : Comparison.Satisfied ⟨5, .greater, -3⟩ := .inl ⟨rfl, by decide⟩
  obtain ⟨-, -, resumes, -⟩ :=
    conditional_by_position (p := remarked) (t := ⟨.condStart, "\x7b", ⟨1, 1⟩⟩) (m := m) rfl rfl
  exact ⟨header, first, (((resumes _ header).1 satisfied).found 9 first).2 (by decide)⟩

end Machine

end HungryTape
