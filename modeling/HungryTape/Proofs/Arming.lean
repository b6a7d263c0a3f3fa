import HungryTape.Proofs.Turns
import Mathlib.Data.Finset.Card

/-!
Arming is one-way. The position after a token that arms a loop is the leftmost one that the machine
can still come to, and `low` never goes back. So no such token is taken twice.
-/

namespace HungryTape

/-- The positions of the newlines. -/
def Program.lines (p : Program) : Finset Nat :=
  (Finset.range p.size).filter fun q => p[q]?.any fun t => t.kind = .newline

theorem Program.mem_lines {p : Program} {q : Nat} {t : Token} (here : p[q]? = some t)
    (kind : t.kind = .newline) : q ∈ Program.lines p := by
  obtain ⟨inside, rfl⟩ := Array.getElem?_eq_some_iff.mp here
  simp [lines, inside, kind]

namespace Machine

/-- The machine takes a token that arms a loop. -/
def Arming (p : Program) (m : Machine) : Prop :=
  ∃ t, m.taken? p = some t ∧ t.kind.arms = true

instance (p : Program) (m : Machine) : Decidable (m.Arming p) :=
  decidable_of_iff ((m.taken? p).any fun t => t.kind.arms) (Option.any_eq_true _ _)

theorem Moved.low_of_arms {m m' : Machine} {kind : Kind} {flow : Flow}
    (h : Moved m kind flow m') (arms : kind.arms = true) : m.position < m'.advance.low := by
  cases h with
  | ahead plain position loop => cases kind <;> simp_all [Kind.arms, Kind.plain]
  | passed | halted | closed | rewound => simp [Kind.arms] at arms
  | armed _ position start count loop commented =>
    rw [low_advance_of_armed position start loop]
    exact Nat.lt_succ_self _

theorem Stepped.low_of_arming {p : Program} {m m' : Machine} (h : Stepped p m m')
    (arming : m.Arming p) : m.position < m'.low := by
  obtain ⟨t, taken, arms⟩ := arming
  cases h with
  | ignored _ commented =>
    have live := (taken?_eq_some_iff.mp taken).1
    simp [live] at commented
  | checked taken' dispatched fed =>
    cases taken.symm.trans taken'
    exact (dispatch_moved dispatched).low_of_arms arms
  | skipped taken' dispatched =>
    cases taken.symm.trans taken'
    exact (dispatch_moved dispatched).low_of_arms arms

theorem after_low_le {p : Program} {m k : Machine} {n : Nat} (h : m.after p n = some k) :
    m.low ≤ k.low :=
  after_invariant (fun k => m.low ≤ k.low) (fun _ _ le step => Nat.le_trans le step.low_le)
    (Nat.le_refl _) h

/-- Once a loop is armed the machine can no longer come to the token that armed it. -/
theorem low_of_later {p : Program} {m a b : Machine} {i j : Nat}
    (ha : m.after p i = some a) (arming : a.Arming p) (later : i < j)
    (hb : m.after p j = some b) : a.position < b.low := by
  obtain ⟨next, hnext, hrest⟩ := after_of_le later hb
  obtain ⟨a', ha', hstep⟩ := after_succ_iff.mp hnext
  cases ha.symm.trans ha'
  have first : a.position < next.low := (step_running hstep).low_of_arming arming
  have rest : next.low ≤ b.low := after_low_le hrest
  omega

/-- The loop in progress was armed by a token that the machine has left behind. -/
def ArmedBehind (p : Program) (m : Machine) : Prop :=
  ∀ l, m.loop = some l → l.start < m.position ∧ ∃ t, p[l.start]? = some t ∧ t.kind.arms = true

theorem ArmedBehind.ahead {p : Program} {m m' : Machine} (h : m.ArmedBehind p)
    (position : m.position ≤ m'.position) (loop : m'.loop = m.loop) : m'.ArmedBehind p := by
  intro l active
  obtain ⟨before, armed⟩ := h l (loop ▸ active)
  exact ⟨Nat.lt_of_lt_of_le before position, armed⟩

theorem Moved.armedBehind {p : Program} {t : Token} {m m' : Machine} {flow : Flow}
    (h : Moved m t.kind flow m') (taken : m.taken? p = some t) (behind : m.ArmedBehind p) :
    m'.advance.ArmedBehind p := by
  generalize kind : t.kind = k at h
  cases h with
  | ahead plain position loop => exact behind.ahead (Nat.le_succ_of_le position) loop
  | passed | halted => exact behind.ahead (Nat.le_succ _) rfl
  | armed arms position start count loop commented =>
    intro l' active
    cases loop.symm.trans active
    rw [start]
    have here := (taken?_eq_some_iff.mp taken).2
    exact ⟨position ▸ Nat.lt_succ_self _, t, here, kind ▸ arms⟩
  | closed position loop =>
    intro l active
    cases loop.symm.trans active
  | rewound active left position loop tape commented =>
    intro l' active'
    cases loop.symm.trans active'
    exact ⟨position ▸ Nat.lt_succ_self _, (behind _ active).2⟩

theorem Stepped.armedBehind {p : Program} {m m' : Machine} (h : Stepped p m m')
    (behind : m.ArmedBehind p) : m'.ArmedBehind p := by
  cases h with
  | ignored here commented => exact behind.ahead (Nat.le_succ _) rfl
  | checked taken dispatched fed => exact (dispatch_moved dispatched).armedBehind taken behind
  | skipped taken dispatched => exact (dispatch_moved dispatched).armedBehind taken behind

theorem after_armedBehind {p : Program} {tape : Tape} {console : Console} {k : Machine} {n : Nat}
    (h : (ofTape tape console).after p n = some k) : k.ArmedBehind p :=
  after_invariant (ArmedBehind p) (fun _ _ behind step => step.armedBehind behind)
    (by simp [ArmedBehind, ofTape]) h

theorem Arming.of_position {p : Program} {a b : Machine} (arming : a.Arming p)
    (taken : (b.taken? p).isSome) (same : a.position = b.position) : b.Arming p := by
  obtain ⟨t, ht, arms⟩ := arming
  obtain ⟨u, hu⟩ := Option.isSome_iff_exists.mp taken
  have ht := (taken?_eq_some_iff.mp ht).2
  have hu' := (taken?_eq_some_iff.mp hu).2
  rw [same] at ht
  cases ht.symm.trans hu'
  exact ⟨t, hu, arms⟩

theorem armed_once {p : Program} {m a b : Machine} {i j : Nat} (ha : m.after p i = some a)
    (arming : a.Arming p) (hb : m.after p j = some b) (taken : (b.taken? p).isSome)
    (same : a.position = b.position) : i = j := by
  rcases Nat.lt_trichotomy i j with before | rfl | behind
  · have right : a.position < b.low := low_of_later ha arming before hb
    have := low_le b
    omega
  · rfl
  · have right : b.position < a.low :=
      low_of_later hb (arming.of_position taken same) behind ha
    have := low_le a
    omega

/-- The turns among the first `n` at which a newline is taken and so a unit of food is spent. -/
def feedings (p : Program) (m : Machine) (n : Nat) : Finset Nat :=
  (Finset.range n).filter fun i =>
    ((m.after p i).bind (taken? p)).any fun t => t.kind = .newline

theorem of_mem_feedings {p : Program} {m : Machine} {n i : Nat} (h : i ∈ m.feedings p n) :
    ∃ k t, m.after p i = some k ∧ k.taken? p = some t ∧ t.kind = .newline := by
  obtain ⟨t, ht, kind⟩ := (Option.any_eq_true _ _).mp (Finset.mem_filter.mp h).2
  obtain ⟨k, hk, taken⟩ := Option.bind_eq_some_iff.mp ht
  exact ⟨k, t, hk, taken, by simpa using kind⟩

/-- Every line is paid for at most once. -/
theorem card_feedings_le (p : Program) (m : Machine) (n : Nat) :
    (m.feedings p n).card ≤ (Program.lines p).card := by
  apply Finset.card_le_card_of_injOn fun i => ((m.after p i).map Machine.position).getD 0
  · intro i hi
    obtain ⟨k, t, hk, taken, kind⟩ := of_mem_feedings hi
    simpa [hk] using Program.mem_lines (taken?_eq_some_iff.mp taken).2 kind
  · intro i hi j hj same
    obtain ⟨a, t, ha, taken, kind⟩ := of_mem_feedings hi
    obtain ⟨b, u, hb, taken', -⟩ := of_mem_feedings hj
    have arming : a.Arming p := ⟨t, taken, by rw [kind]; rfl⟩
    exact armed_once ha arming hb (by simp [taken']) (by simpa [ha, hb] using same)

/-- A token that arms a loop is behind the machine for good. So it is taken at most once, no line
is paid for twice, a loop that was replaced never comes back, and the loop in progress was always
armed by a token behind the machine. -/
theorem arming_one_way (p : Program) (tape : Tape) (console : Console) :
    let m := ofTape tape console
    (∀ i j a b, m.after p i = some a → a.Arming p → i < j → m.after p j = some b →
      a.position < b.position) ∧
    (∀ i j a b, m.after p i = some a → a.Arming p → m.after p j = some b →
      (b.taken? p).isSome → a.position = b.position → i = j) ∧
    (∀ n, (m.feedings p n).card ≤ (Program.lines p).card) ∧
    (∀ i j a b outer l, m.after p i = some a → a.Arming p → a.loop = some outer → i < j →
      m.after p j = some b → b.loop = some l → outer.start < l.start) ∧
    (∀ n b l, m.after p n = some b → b.loop = some l →
      l.start < b.position ∧ ∃ t, p[l.start]? = some t ∧ t.kind.arms = true) := by
  intro m
  refine ⟨?_, ?_, card_feedings_le p m, ?_, fun n b l hb => after_armedBehind hb l⟩
  · intro i j a b ha arming later hb
    exact Nat.lt_of_lt_of_le (low_of_later ha arming later hb) (low_le b)
  · intro i j a b ha arming hb taken same
    exact armed_once ha arming hb taken same
  · intro i j a b outer l ha arming active later hb armed
    have left : outer.start < a.position := (after_armedBehind ha outer active).1
    have right : a.position < b.low := low_of_later ha arming later hb
    simp only [low, armed] at right
    omega

/-- The second newline of `++`, two newlines and `]` replaces the loop of the first one. -/
theorem arming_one_way_two_lines :
    let p : Program := #[⟨.increment, "+", ⟨1, 1⟩⟩, ⟨.increment, "+", ⟨1, 2⟩⟩,
      ⟨.newline, "\n", ⟨1, 3⟩⟩, ⟨.newline, "\n", ⟨2, 1⟩⟩, ⟨.loopEnd, "]", ⟨3, 1⟩⟩]
    let m := ofTape ⟨#[0], 0, 0⟩ { input := { rest := [] } }
    let a := { m with tape := ⟨#[1], 0, 0⟩, position := 3, loop := some ⟨2, 1, true⟩ }
    let b := { m with position := 4, loop := some ⟨3, 0, true⟩ }
    m.after p 3 = some a ∧ a.Arming p ∧ m.after p 4 = some b ∧ a.position < b.position ∧
      (m.feedings p 5).card ≤ (Program.lines p).card := by
  intro p m a b
  have ha : m.after p 3 = some a := by decide
  have hb : m.after p 4 = some b := by decide
  have arming : a.Arming p := by decide
  obtain ⟨later, -, paid, -, -⟩ := arming_one_way p ⟨#[0], 0, 0⟩ { input := { rest := [] } }
  exact ⟨ha, arming, hb, later 3 4 a b ha arming (by decide) hb, paid 5⟩

end Machine

end HungryTape
