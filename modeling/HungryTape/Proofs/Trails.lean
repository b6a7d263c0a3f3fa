import HungryTape.Proofs.Turns

namespace HungryTape.Machine

/-- The machines among the first `n` of a run that act on a token. -/
def trail (p : Program) (m : Machine) (n : Nat) : List Machine :=
  (List.range n).filterMap fun i => (m.after p i).filter fun k => (k.taken? p).isSome

/-- The token under the machine ends the program by a fault, by starvation or by its own will. -/
def Breaks (p : Program) (m : Machine) : Prop :=
  ∃ result last, m.step p = .finished result last ∧ result ≠ .ok .completed

/-- One of the first `n` turns ends the program, and not because there is no token left. -/
def BreaksOff (p : Program) (m : Machine) (n : Nat) : Prop :=
  ∃ i k, i < n ∧ m.after p i = some k ∧ k.Breaks p

variable {p : Program} {m k : Machine} {t : Token}

theorem not_breaksOff {n : Nat} (reached : m.after p n = some k) : ¬ m.BreaksOff p n := by
  rintro ⟨i, b, before, there, result, last, finished, -⟩
  have ended : m.after p (i + 1) = none := by
    rw [after, there, Option.bind_some, next?_eq_none_of_finished finished]
  cases (after_none before ended).symm.trans reached

theorem trail_add {i : Nat} (reached : m.after p i = some k) (j : Nat) :
    m.trail p (i + j) = m.trail p i ++ k.trail p j := by
  have later (x : Nat) : m.after p (i + x) = k.after p x := by
    rw [after_add, reached, Option.bind_some]
  simp only [trail, List.range_add, List.filterMap_append, List.filterMap_map, Function.comp_def,
    later]

@[simp]
theorem trail_zero (p : Program) (m : Machine) : m.trail p 0 = [] := rfl

theorem trail_one (taken : m.taken? p = some t) : m.trail p 1 = [m] := by
  have first : (m.after p 0).filter (fun k => (k.taken? p).isSome) = some m := by
    simp [after, taken]
  simp only [trail, List.range_one, List.filterMap_cons, List.filterMap_nil, first]

theorem trail_one_of_idle (idle : m.taken? p = none) : m.trail p 1 = [] := by
  have first : (m.after p 0).filter (fun k => (k.taken? p).isSome) = none := by
    simp [after, idle]
  simp only [trail, List.range_one, List.filterMap_cons, List.filterMap_nil, first]

theorem dispatched_of_running {m' : Machine} (taken : m.taken? p = some t)
    (running : m.step p = .running m') :
    ∃ flow a, m.dispatch p t = (.ok flow, a) ∧ m' = a.advance := by
  cases step_running running with
  | ignored _ commented =>
    have live := (taken?_eq_some_iff.mp taken).1
    simp [live] at commented
  | checked taken' dispatched fed =>
    cases taken.symm.trans taken'
    exact ⟨_, _, dispatched, rfl⟩
  | skipped taken' dispatched =>
    cases taken.symm.trans taken'
    exact ⟨_, _, dispatched, rfl⟩

/-- A machine that acts on a token goes on to the next one or breaks. -/
theorem running_or_breaks (taken : m.taken? p = some t) :
    (∃ m', m.step p = .running m') ∨ m.Breaks p := by
  cases stepped : m.step p with
  | running m' => exact .inl ⟨m', rfl⟩
  | finished result last =>
    refine .inr ⟨result, last, stepped, ?_⟩
    rintro rfl
    cases step_finished stepped with
    | completed past =>
      have here := (taken?_eq_some_iff.mp taken).2
      cases past.symm.trans here

/-- The machine acts on the tokens at these positions, one in each turn, each time as `acts` says,
and is then as `ends` says, unless it breaks off on the way. -/
def Follows (p : Program) (acts : Machine → Prop) (m : Machine) (path : List Nat)
    (ends : Machine → Prop) : Prop :=
  m.BreaksOff p path.length ∨
    ∃ k, m.after p path.length = some k ∧ (m.trail p path.length).map position = path ∧
      (∀ b ∈ m.trail p path.length, acts b) ∧ ends k

section

variable {acts ends ends' : Machine → Prop} {path path' : List Nat}

theorem Follows.nil (h : ends m) : Follows p acts m [] ends :=
  .inr ⟨m, rfl, by simp, by simp, h⟩

theorem Follows.append (h : Follows p acts m path ends)
    (rest : ∀ k, ends k → Follows p acts k path' ends') :
    Follows p acts m (path ++ path') ends' := by
  unfold Follows
  rw [List.length_append]
  rcases h with ⟨i, b, before, there, breaks⟩ | ⟨k, reached, positions, acted, ended⟩
  · exact .inl ⟨i, b, Nat.lt_add_right _ before, there, breaks⟩
  · have later (j : Nat) : m.after p (path.length + j) = k.after p j := by
      rw [after_add, reached, Option.bind_some]
    rcases rest k ended with ⟨i, b, before, there, breaks⟩ |
      ⟨k', reached', positions', acted', ended'⟩
    · exact .inl ⟨path.length + i, b, Nat.add_lt_add_left before _, (later i).trans there, breaks⟩
    · refine .inr ⟨k', (later _).trans reached', ?_, ?_, ended'⟩
      · rw [trail_add reached, List.map_append, positions, positions']
      · rw [trail_add reached, List.forall_mem_append]
        exact ⟨acted, acted'⟩

/-- One token, whatever comes of it. -/
theorem Follows.one (taken : m.taken? p = some t)
    (turn : ∀ m', m.step p = .running m' → acts m ∧ ends m') :
    Follows p acts m [m.position] ends := by
  rcases running_or_breaks taken with ⟨m', running⟩ | breaks
  · obtain ⟨acted, ended⟩ := turn m' running
    have next : m.after p 1 = some m' := after_succ_iff.mpr ⟨m, rfl, running⟩
    refine .inr ⟨m', next, ?_, ?_, ended⟩
    · rw [List.length_singleton, trail_one taken, List.map_singleton]
    · rw [List.length_singleton, trail_one taken]
      simpa using acted
  · exact .inl ⟨0, m, Nat.zero_lt_one, rfl, breaks⟩

end

end HungryTape.Machine
