import HungryTape.Proofs.Searches
import Mathlib.Order.Bounds.Basic
import Mathlib.Order.Nat

namespace HungryTape

namespace Program

/-- A comment that opens at `s` goes as far as `k`, since no newline stands between the two. -/
def Reaches (p : Program) (s k : Nat) : Prop :=
  s ≤ k ∧ ∀ j, s < j → j < k → p.isAt .newline j = false

/-- Read from `i` on, a comment opens at `s`: there is a `;`, and no earlier comment reaches it. -/
def OpensFrom (p : Program) (i s : Nat) : Prop :=
  i ≤ s ∧ p.isAt .comment s = true ∧ ∀ r, r < s → p.OpensFrom i r → ¬ p.Reaches r s
termination_by s

/-- Read from `i` on, the position lies in a comment. -/
def CommentedFrom (p : Program) (i k : Nat) : Prop :=
  ∃ s, p.OpensFrom i s ∧ p.Reaches s k

/-- Read from `i` on, the position lies in a comment behind the `;` that opens it. -/
def HiddenFrom (p : Program) (i k : Nat) : Prop :=
  ∃ s, s < k ∧ p.OpensFrom i s ∧ p.Reaches s k

/-- The positions from `k` on that hold the kind and lie in no comment that opens from `i` on. -/
def lives (p : Program) (kind : Kind) (i k : Nat) : Set Nat :=
  {j | k ≤ j ∧ p.isAt kind j = true ∧ ¬ p.CommentedFrom i j}

section

variable {p : Program} {kind : Kind} {i j k s : Nat}

theorem opensFrom_iff :
    p.OpensFrom i s ↔ i ≤ s ∧ p.isAt .comment s = true ∧ ¬ p.HiddenFrom i s := by
  rw [OpensFrom]
  simp only [HiddenFrom, not_exists, not_and]

theorem OpensFrom.le (h : p.OpensFrom i s) : i ≤ s :=
  (opensFrom_iff.mp h).1

theorem commentedFrom_iff : p.CommentedFrom i k ↔ p.OpensFrom i k ∨ p.HiddenFrom i k := by
  constructor
  · rintro ⟨s, opens, reaches⟩
    rcases Nat.lt_or_eq_of_le reaches.1 with before | rfl
    · exact .inr ⟨s, before, opens, reaches⟩
    · exact .inl opens
  · rintro (opens | ⟨s, -, opens, reaches⟩)
    · refine ⟨k, opens, Nat.le_refl k, ?_⟩
      intro j after before
      omega
    · exact ⟨s, opens, reaches⟩

theorem not_hiddenFrom_start : ¬ p.HiddenFrom i i := by
  rintro ⟨s, before, opens, -⟩
  have := opens.le
  omega

theorem reaches_succ (before : s < k) :
    p.Reaches s (k + 1) ↔ p.Reaches s k ∧ p.isAt .newline k = false := by
  constructor
  · rintro ⟨-, between⟩
    refine ⟨⟨by omega, ?_⟩, between k before (Nat.lt_succ_self k)⟩
    intro j after upto
    exact between j after (by omega)
  · rintro ⟨⟨-, between⟩, goesOn⟩
    refine ⟨by omega, ?_⟩
    intro j after upto
    rcases Nat.lt_or_eq_of_le (Nat.le_of_lt_succ upto) with inner | rfl
    · exact between j after inner
    · exact goesOn

/-- The next position is hidden if a comment opens here or goes on here. -/
theorem hiddenFrom_succ :
    p.HiddenFrom i (k + 1) ↔
      p.OpensFrom i k ∨ p.HiddenFrom i k ∧ p.isAt .newline k = false := by
  constructor
  · rintro ⟨s, before, opens, reaches⟩
    rcases Nat.lt_or_eq_of_le (Nat.le_of_lt_succ before) with inner | rfl
    · obtain ⟨reaches, goesOn⟩ := (reaches_succ inner).mp reaches
      exact .inr ⟨⟨s, inner, opens, reaches⟩, goesOn⟩
    · exact .inl opens
  · rintro (opens | ⟨⟨s, before, opens, reaches⟩, goesOn⟩)
    · refine ⟨k, Nat.lt_succ_self k, opens, Nat.le_succ k, ?_⟩
      intro j after upto
      omega
    · exact ⟨s, Nat.lt_succ_of_lt before, opens, (reaches_succ before).mpr ⟨reaches, goesOn⟩⟩

/-- A position that does not count can be left behind. -/
theorem lives_succ (dead : p.isAt kind k = true → p.CommentedFrom i k) :
    p.lives kind i k = p.lives kind i (k + 1) := by
  ext j
  constructor
  · rintro ⟨behind, found, live⟩
    rcases Nat.lt_or_eq_of_le behind with later | rfl
    · exact ⟨later, found, live⟩
    · exact absurd (dead found) live
  · rintro ⟨behind, found, live⟩
    exact ⟨Nat.le_of_succ_le behind, found, live⟩

/-- The flag of the search says whether the position is hidden, and then the search finds the
least position that counts. -/
theorem findLiveFrom?_eq_some_iff {commented : Bool} (start : i ≤ k)
    (flag : commented = true ↔ p.HiddenFrom i k) :
    p.findLiveFrom? kind commented k = some j ↔ IsLeast (p.lives kind i k) j := by
  fun_induction findLiveFrom? p kind commented k with
  | case1 k inside ih =>
    have hidden : p.HiddenFrom i k := flag.mp rfl
    rw [lives_succ fun _ => commentedFrom_iff.mpr (.inr hidden)]
    apply ih (Nat.le_succ_of_le start)
    have opens : ¬ p.OpensFrom i k := fun opens => (opensFrom_iff.mp opens).2.2 hidden
    simp [hiddenFrom_succ, opens, hidden, isAt_eq inside]
  | case2 commented k inside unmarked comment ih =>
    have opens : p.OpensFrom i k :=
      opensFrom_iff.mpr ⟨start, by simp [isAt_eq inside, comment], mt flag.mpr unmarked⟩
    rw [lives_succ fun _ => commentedFrom_iff.mpr (.inl opens)]
    apply ih (Nat.le_succ_of_le start)
    simp [hiddenFrom_succ, opens]
  | case3 commented k inside unmarked other found =>
    have least : IsLeast (p.lives kind i k) k := by
      refine ⟨⟨Nat.le_refl k, by simp [isAt_eq inside, found], ?_⟩, fun j counts => counts.1⟩
      intro commented
      rcases commentedFrom_iff.mp commented with opens | hidden
      · exact other (by simpa [isAt_eq inside] using (opensFrom_iff.mp opens).2.1)
      · exact unmarked (flag.mpr hidden)
    constructor
    · rintro ⟨⟩
      exact least
    · intro h
      rw [least.unique h]
  | case4 commented k inside unmarked other different ih =>
    rw [lives_succ fun found => absurd (by simpa [isAt_eq inside] using found) different]
    apply ih (Nat.le_succ_of_le start)
    have opens : ¬ p.OpensFrom i k := by
      intro opens
      exact other (by simpa [isAt_eq inside] using (opensFrom_iff.mp opens).2.1)
    have hidden : ¬ p.HiddenFrom i k := mt flag.mpr unmarked
    simp [hiddenFrom_succ, opens, hidden]
  | case5 commented k past =>
    constructor
    · intro found
      cases found
    · rintro ⟨⟨behind, found, -⟩, -⟩
      obtain ⟨t, there, -⟩ := isAt_iff.mp found
      obtain ⟨inside, -⟩ := Array.getElem?_eq_some_iff.mp there
      omega

end

end Program

namespace Cursor

variable {c : Cursor} {kind : Kind}

theorem findLive?_eq_some_iff {j : Nat} :
    c.findLive? kind = some j ↔
      IsLeast (c.program.lives kind (c.position + 1) (c.position + 1)) j :=
  Program.findLiveFrom?_eq_some_iff (Nat.le_refl _)
    ⟨by simp, fun hidden => absurd hidden Program.not_hiddenFrom_start⟩

theorem findLive?_eq_none_iff :
    c.findLive? kind = none ↔ c.program.lives kind (c.position + 1) (c.position + 1) = ∅ := by
  classical
  constructor
  · intro nothing
    by_contra some
    have least := (Set.nonempty_iff_ne_empty.mpr some).isLeast_natFind
    rw [findLive?_eq_some_iff.mpr least] at nothing
    cases nothing
  · intro empty
    cases found : c.findLive? kind with
    | none => rfl
    | some j =>
      have counts := (findLive?_eq_some_iff.mp found).1
      rw [empty] at counts
      cases counts

/-- Without a `;` in between there is no comment at the first token of the kind. -/
theorem findLive?_of_find? (code : kind ≠ .comment) {i : Nat} (found : c.find? kind = some i)
    (clear : ∀ k, c.position < k → k < i → c.program.isAt .comment k = false) :
    c.findLive? kind = some i := by
  obtain ⟨behind, here, between⟩ := find?_eq_some_iff.mp found
  apply findLive?_eq_some_iff.mpr
  refine ⟨⟨behind, Program.isAt_iff.mpr here, ?_⟩, ?_⟩
  · rintro ⟨s, opens, before, -⟩
    obtain ⟨start, comment, -⟩ := Program.opensFrom_iff.mp opens
    rcases Nat.lt_or_eq_of_le before with earlier | rfl
    · rw [clear s start earlier] at comment
      cases comment
    · obtain ⟨t, there, kind⟩ := here
      obtain ⟨u, there', comment⟩ := Program.isAt_iff.mp comment
      cases there.symm.trans there'
      exact code (kind.symm.trans comment)
  · rintro j ⟨after, held, -⟩
    obtain ⟨t, there, kind⟩ := Program.isAt_iff.mp held
    by_contra earlier
    exact between j t after (by omega) there kind

/-- The plain search does not pass over what the other one finds. -/
theorem find?_of_findLive? {j : Nat} (found : c.findLive? kind = some j) :
    ∃ i, c.find? kind = some i ∧ i ≤ j := by
  obtain ⟨behind, held, -⟩ := (findLive?_eq_some_iff.mp found).1
  obtain ⟨t, there, same⟩ := Program.isAt_iff.mp held
  cases first : c.find? kind with
  | none => exact absurd same (find?_eq_none_iff.mp first j t behind there)
  | some i =>
    refine ⟨i, rfl, ?_⟩
    by_contra later
    exact (find?_eq_some_iff.mp first).between j t behind (by omega) there same

/-- The search finds the least position behind the cursor that holds the kind and lies in no
comment, where the comments are read from just behind the cursor on, and it finds nothing just when
all positions of the kind lie in comments. The plain search finds something no later. Unless `;`
itself is looked for, the two find the same if no `;` stands before what the plain one finds. -/
theorem search_outside_comments (c : Cursor) (kind : Kind) :
    (∀ j, c.findLive? kind = some j ↔
      IsLeast {j | c.position < j ∧ c.program.isAt kind j = true ∧
        ¬ c.program.CommentedFrom (c.position + 1) j} j) ∧
    (c.findLive? kind = none ↔
      ∀ j, c.position < j → c.program.isAt kind j = true →
        c.program.CommentedFrom (c.position + 1) j) ∧
    (∀ j, c.findLive? kind = some j → ∃ i, c.find? kind = some i ∧ i ≤ j) ∧
    (kind ≠ .comment → ∀ i, c.find? kind = some i →
      (∀ k, c.position < k → k < i → c.program.isAt .comment k = false) →
      c.findLive? kind = some i) := by
  refine ⟨fun j => findLive?_eq_some_iff, ?_, fun j => find?_of_findLive?,
    fun code i => findLive?_of_find? code⟩
  rw [findLive?_eq_none_iff, Set.eq_empty_iff_forall_notMem]
  constructor
  · intro empty j behind held
    by_contra live
    exact empty j ⟨behind, held, live⟩
  · rintro hidden j ⟨behind, held, live⟩
    exact live (hidden j behind held)

end Cursor

end HungryTape
