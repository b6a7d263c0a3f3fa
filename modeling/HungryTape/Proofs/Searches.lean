import HungryTape.Program

namespace HungryTape

namespace Program

/-- The first token of the kind behind position `i` stands at `j`. -/
structure First (p : Program) (kind : Kind) (i j : Nat) : Prop where
  behind : i < j
  found : ∃ t, p[j]? = some t ∧ t.kind = kind
  between : ∀ k t, i < k → k < j → p[k]? = some t → t.kind ≠ kind

theorem First.unique {p : Program} {kind : Kind} {i j k : Nat} (h : p.First kind i j)
    (h' : p.First kind i k) : j = k := by
  obtain ⟨t, here, same⟩ := h.found
  obtain ⟨u, there, same'⟩ := h'.found
  rcases Nat.lt_trichotomy j k with before | rfl | after
  · exact absurd same (h'.between j t h.behind before here)
  · rfl
  · exact absurd same' (h.between k u h'.behind after there)

theorem before_findFrom? {p : Program} {test : Token → Bool} {i j k : Nat} {t : Token}
    (h : p.findFrom? test i = some j) (start : i ≤ k) (before : k < j) (there : p[k]? = some t) :
    test t = false := by
  fun_induction findFrom? p test i with
  | case1 i inside found =>
    cases h
    omega
  | case2 i inside other ih =>
    rcases Nat.lt_or_eq_of_le start with later | rfl
    · exact ih h later
    · obtain ⟨_, rfl⟩ := Array.getElem?_eq_some_iff.mp there
      simpa using other
  | case3 => cases h

theorem not_of_findFrom?_none {p : Program} {test : Token → Bool} {i k : Nat} {t : Token}
    (h : p.findFrom? test i = none) (start : i ≤ k) (there : p[k]? = some t) :
    test t = false := by
  have inside : k < p.size := (Array.getElem?_eq_some_iff.mp there).1
  fun_induction findFrom? p test i with
  | case1 i _ found => cases h
  | case2 i _ other ih =>
    rcases Nat.lt_or_eq_of_le start with later | rfl
    · exact ih h later
    · obtain ⟨_, rfl⟩ := Array.getElem?_eq_some_iff.mp there
      simpa using other
  | case3 i past => omega

end Program

namespace Cursor

variable {c : Cursor} {kind : Kind}

theorem find?_eq_none_iff :
    c.find? kind = none ↔
      ∀ j t, c.position < j → c.program[j]? = some t → t.kind ≠ kind := by
  constructor
  · intro nothing j t behind there
    simpa using Program.not_of_findFrom?_none nothing behind there
  · intro nothing
    cases found : c.find? kind with
    | none => rfl
    | some j =>
      obtain ⟨t, there, same⟩ := Program.test_of_findFrom? found
      exact absurd (by simpa using same) (nothing j t (Program.le_of_findFrom? found) there)

theorem find?_eq_some_iff {j : Nat} :
    c.find? kind = some j ↔ c.program.First kind c.position j := by
  have first {j : Nat} (found : c.find? kind = some j) :
      c.program.First kind c.position j := by
    obtain ⟨t, there, same⟩ := Program.test_of_findFrom? found
    refine ⟨Program.le_of_findFrom? found, ⟨t, there, by simpa using same⟩, ?_⟩
    intro k u behind before there
    simpa using Program.before_findFrom? found behind before there
  refine ⟨first, ?_⟩
  intro h
  cases found : c.find? kind with
  | none =>
    obtain ⟨t, there, same⟩ := h.found
    exact absurd same (find?_eq_none_iff.mp found j t h.behind there)
  | some k => rw [(first found).unique h]

end Cursor

namespace Program

/-- The tokens that are acted on from position `i` on if nothing jumps, inside a comment or not.
Behind each of them `skip` tells how many tokens are left out. -/
def walk (p : Program) (skip : Nat → Nat) (commented : Bool) (i : Nat) : List Nat :=
  if _h : i < p.size then
    if commented then p.walk skip (p[i].kind ≠ .newline) (i + 1)
    else i :: p.walk skip (p[i].kind = .comment) (i + 1 + skip i)
  else []
termination_by p.size - i

section

variable {p : Program} {skip : Nat → Nat} {i : Nat} {t : Token}

theorem walk_past {commented : Bool} (past : p[i]? = none) : p.walk skip commented i = [] := by
  rw [walk, dif_neg (Nat.not_lt.mpr (Array.getElem?_eq_none_iff.mp past))]

theorem walk_comment (here : p[i]? = some t) :
    p.walk skip true i = p.walk skip (t.kind ≠ .newline) (i + 1) := by
  obtain ⟨inside, rfl⟩ := Array.getElem?_eq_some_iff.mp here
  rw [walk, dif_pos inside, if_pos rfl]

theorem walk_live (here : p[i]? = some t) :
    p.walk skip false i = i :: p.walk skip (t.kind = .comment) (i + 1 + skip i) := by
  obtain ⟨inside, rfl⟩ := Array.getElem?_eq_some_iff.mp here
  rw [walk, dif_pos inside, if_neg Bool.false_ne_true]

end

def isAt (p : Program) (kind : Kind) (i : Nat) : Bool :=
  p[i]?.any fun t => t.kind = kind

theorem isAt_iff {p : Program} {kind : Kind} {i : Nat} :
    p.isAt kind i = true ↔ ∃ t, p[i]? = some t ∧ t.kind = kind := by
  simp [isAt, Option.any_eq_true]

theorem isAt_eq {p : Program} {kind : Kind} {i : Nat} (inside : i < p.size) :
    p.isAt kind i = decide (p[i].kind = kind) := by
  simp [isAt, inside]

/-- The search that leaves comments out finds the first token on the walk that leaves out nothing
else. -/
theorem findLiveFrom?_eq {p : Program} {kind : Kind} (live : kind ≠ .comment) (commented : Bool)
    (i : Nat) :
    p.findLiveFrom? kind commented i =
      (p.walk (fun _ => 0) commented i).find? (p.isAt kind) := by
  fun_induction findLiveFrom? p kind commented i with
  | case1 i inside ih => rw [walk, dif_pos inside, if_pos rfl, ih]
  | case2 commented i inside unmarked comment ih =>
    have other : p.isAt kind i = false := by
      rw [isAt_eq inside, comment]
      simpa using live.symm
    rw [walk, dif_pos inside, if_neg unmarked, List.find?_cons, other, ih]
    simp only [comment, decide_true, Nat.add_zero]
  | case3 commented i inside unmarked code found =>
    rw [walk, dif_pos inside, if_neg unmarked, List.find?_cons, isAt_eq inside]
    simp only [found, decide_true]
  | case4 commented i inside unmarked code other ih =>
    rw [walk, dif_pos inside, if_neg unmarked, List.find?_cons, isAt_eq inside, ih]
    simp only [code, other, decide_false, Nat.add_zero]
  | case5 commented i past => rw [walk, dif_neg past, List.find?_nil]

end Program

end HungryTape
