import HungryTape.Proofs.Turns

namespace HungryTape

/-- The direction in which an instruction moves. -/
def Kind.direction? : Kind → Option Int
  | moveLeft => some (-1)
  | moveRight => some 1
  | _ => none

theorem Cell.fits_of_between {a v : Int} (ha : Cell.Fits a) (h : 0 ≤ v ∧ v ≤ a ∨ a ≤ v ∧ v ≤ 0) :
    Cell.Fits v := by
  unfold Cell.Fits Cell.least Cell.greatest at *
  omega

/-- A remainder lies between zero and its dividend. -/
theorem Cell.fits_tmod {a : Int} (b : Int) (ha : Cell.Fits a) : Cell.Fits (a.tmod b) := by
  apply Cell.fits_of_between ha
  have size : (a.tmod b).natAbs ≤ a.natAbs := by
    rw [Int.natAbs_tmod]
    exact Nat.mod_le _ _
  rcases Int.le_total 0 a with positive | negative
  · have sign : 0 ≤ a.tmod b := Int.tmod_nonneg b positive
    omega
  · have sign : 0 ≤ (-a).tmod b := Int.tmod_nonneg b (by omega)
    rw [Int.neg_tmod] at sign
    omega

theorem Operator.fits_of_apply {op : Operator} {a b v : Int} (ha : Cell.Fits a)
    (h : op.apply a b = .ok v) : Cell.Fits v := by
  unfold Operator.apply at h
  split at h
  · simp at h
  · split at h
    · simp at h
    · split at h
      · rename_i fits
        cases h
        cases op with
        | mod => exact Cell.fits_tmod b ha
        | add | sub | mul | div => exact fits
      · simp at h

theorem Operator.apply_of_applyAt {location : Location} {op : Operator} {a b v : Int}
    (h : op.applyAt location a b = .ok v) : op.apply a b = .ok v := by
  unfold Operator.applyAt at h
  split at h <;> simp_all

theorem Input.fits_of_readChar {i : Input} {v : Int} (h : i.readChar.1 = .value v) :
    Cell.Fits v := by
  unfold Input.readChar at h
  dsimp only at h
  split at h
  · unfold Input.atEnd at h
    split at h <;> simp at h
  · rename_i b _ _
    cases h
    have := b.toNat_lt
    unfold Cell.Fits Cell.least Cell.greatest
    omega

theorem Input.fits_of_integer {sign digits : List Char} {v : Int}
    (h : Input.integer sign digits = .value v) : Cell.Fits v := by
  unfold Input.integer at h
  dsimp only at h
  generalize (if sign = ['-'] then -(Numeral.ofDecimal digits : Int)
    else Numeral.ofDecimal digits) = w at h
  by_cases fits : Cell.Fits w
  · simp only [fits, ↓reduceIte, Reading.value.injEq] at h
    exact h ▸ fits
  · simp [fits] at h

theorem Input.fits_of_readInt {i : Input} {v : Int} (h : i.readInt.1 = .value v) :
    Cell.Fits v := by
  unfold Input.readInt at h
  dsimp only at h
  split at h
  · simp at h
  · unfold Input.interpret at h
    split at h
    · exact Input.fits_of_integer h
    all_goals simp at h

namespace Tape

theorem ofCapacity_eq {capacity stomach : Nat} (inside : stomach < capacity) :
    ofCapacity capacity stomach = .ok ⟨Array.replicate capacity 0, 0, stomach⟩ := by
  simp [ofCapacity, inside]

theorem ofCapacity_ok {capacity stomach : Nat} {t : Tape}
    (h : ofCapacity capacity stomach = .ok t) :
    stomach < capacity ∧ t = ⟨Array.replicate capacity 0, 0, stomach⟩ := by
  unfold ofCapacity at h
  split at h
  · rename_i inside
    cases h
    exact ⟨inside, rfl⟩
  · simp at h

theorem ofCapacity_valid {capacity stomach : Nat} {t : Tape}
    (h : ofCapacity capacity stomach = .ok t) : t.Valid := by
  obtain ⟨inside, rfl⟩ := ofCapacity_ok h
  refine ⟨by simp; omega, by simpa using inside, ?_⟩
  intro v hv
  have zero : v = 0 := (Array.mem_replicate.mp hv).2
  rw [zero]
  decide

theorem Valid.value_fits {t : Tape} (valid : t.Valid) : Cell.Fits t.value := by
  apply valid.fits
  simp [value, Array.getD, valid.current_lt]

theorem Valid.value_store {t : Tape} (valid : t.Valid) (v : Int) : (t.store v).value = v := by
  simp [value, store, valid.current_lt]

theorem Valid.stomachValue_store {t : Tape} (valid : t.Valid) (v : Int) :
    (t.store v).stomachValue = if t.current = t.stomach then v else t.stomachValue := by
  simp only [stomachValue, store, Array.getD_eq_getD_getElem?, Array.getElem?_setIfInBounds]
  by_cases same : t.current = t.stomach
  · simp [same, valid.stomach_lt]
  · simp [same]

theorem value_of_stomach {t : Tape} (here : t.current = t.stomach) : t.value = t.stomachValue := by
  rw [value, here, stomachValue]

/-- Feeding takes exactly one unit as long as a cell can hold the result. -/
theorem Valid.stomachValue_feed {t : Tape} (valid : t.Valid)
    (room : Cell.least < t.stomachValue) : t.feed.stomachValue = t.stomachValue - 1 := by
  have fed : t.feed.stomachValue = max Cell.least (t.stomachValue - 1) := by
    simp [stomachValue, feed, valid.stomach_lt]
  omega

/-- What no instruction takes away from a tape. -/
structure Keeps (t t' : Tape) : Prop where
  size : t'.cells.size = t.cells.size
  stomach : t'.stomach = t.stomach
  valid : t.Valid → t'.Valid

theorem Keeps.refl (t : Tape) : t.Keeps t :=
  ⟨rfl, rfl, id⟩

theorem Keeps.of_eq {t t' : Tape} (h : t' = t) : t.Keeps t' :=
  h ▸ .refl t

theorem Keeps.trans {t u v : Tape} (h : t.Keeps u) (h' : u.Keeps v) : t.Keeps v :=
  ⟨h'.size.trans h.size, h'.stomach.trans h.stomach, h'.valid ∘ h.valid⟩

theorem fits_of_mem_set {cells : Array Int} {i : Nat} {w : Int}
    (fits : ∀ v ∈ cells, Cell.Fits v) (hw : Cell.Fits w) :
    ∀ v ∈ cells.setIfInBounds i w, Cell.Fits v := by
  intro v hv
  rcases Array.mem_or_eq_of_mem_setIfInBounds hv with old | rfl
  · exact fits v old
  · exact hw

theorem store_keeps {t : Tape} {v : Int} (fits : t.Valid → Cell.Fits v) : t.Keeps (t.store v) := by
  refine ⟨by simp [store], rfl, ?_⟩
  intro valid
  refine ⟨?_, ?_, fits_of_mem_set valid.fits (fits valid)⟩
  · simpa [store] using valid.current_lt
  · simpa [store] using valid.stomach_lt

theorem seek_keeps {t : Tape} {index : Nat} (inside : index < t.cells.size) :
    t.Keeps (t.seek index) :=
  ⟨rfl, rfl, fun valid => ⟨inside, valid.stomach_lt, valid.fits⟩⟩

theorem feed_keeps (t : Tape) : t.Keeps t.feed := by
  refine ⟨by simp [feed], rfl, ?_⟩
  intro valid
  have before : Cell.Fits t.stomachValue := by
    apply valid.fits
    simp [stomachValue, Array.getD, valid.stomach_lt]
  have fed : Cell.Fits (max Cell.least (t.stomachValue - 1)) := by
    unfold Cell.Fits Cell.least Cell.greatest at *
    omega
  refine ⟨?_, ?_, fits_of_mem_set valid.fits fed⟩
  · simpa [feed] using valid.current_lt
  · simpa [feed] using valid.stomach_lt

theorem target_lt {t : Tape} {delta : Int} {index : Nat} (h : t.target delta = .ok index) :
    index < t.cells.size := by
  unfold target at h
  dsimp only at h
  split at h
  · cases h
    omega
  · simp at h

end Tape

namespace Machine

theorem settle_keeps {α : Type} {m : Machine} {decision : Except Fault α}
    {act : Machine → α → Machine}
    (acted : ∀ a, decision = .ok a → m.tape.Keeps (act m a).tape) :
    m.tape.Keeps (m.settle decision act).2.tape := by
  cases decision with
  | error f => exact .refl _
  | ok a => exact acted a rfl

theorem emit_tape (m : Machine) (bytes : List UInt8) : (m.emit bytes).2.tape = m.tape := by
  rw [emit_snd]

theorem destination_lt {p : Program} {t : Token} {d : Int} {m : Machine} {index : Nat}
    (h : m.destination p t d = .ok index) : index < m.tape.cells.size := by
  unfold destination at h
  cases argument : (m.cursor p).argumentOr m.tape 1 with
  | error f => simp [argument, bind, Except.bind] at h
  | ok distance =>
    simp only [argument, bind, Except.bind] at h
    split at h
    · rename_i reached
      cases h
      exact Tape.target_lt reached
    · simp at h

theorem store_keeps_of_applyAt {m : Machine} {location : Location} {op : Operator} {b v : Int}
    (h : op.applyAt location m.tape.value b = .ok v) : m.tape.Keeps (m.store v).tape :=
  Tape.store_keeps fun valid =>
    Operator.fits_of_apply valid.value_fits (Operator.apply_of_applyAt h)

theorem move_keeps (p : Program) (t : Token) (d : Int) (m : Machine) :
    m.tape.Keeps (m.move p t d).2.tape :=
  settle_keeps fun _ reached => Tape.seek_keeps (destination_lt reached)

theorem adjust_keeps (p : Program) (t : Token) (op : Operator) (m : Machine) :
    m.tape.Keeps (m.adjust p t op).2.tape := by
  apply settle_keeps
  intro v applied
  cases argument : (m.cursor p).argumentOr m.tape 1 with
  | error f => simp [argument, bind, Except.bind] at applied
  | ok amount =>
    simp only [argument, bind, Except.bind] at applied
    exact store_keeps_of_applyAt applied

theorem scale_keeps (p : Program) (t : Token) (op : Operator) (m : Machine) :
    m.tape.Keeps (m.scale p t op).2.tape := by
  unfold scale
  split
  · exact .refl _
  · exact .refl _
  · exact settle_keeps fun v applied => store_keeps_of_applyAt applied

theorem cleanse_keeps (m : Machine) : m.tape.Keeps m.cleanse.tape := by
  unfold cleanse
  split
  · exact Tape.store_keeps fun _ => by decide
  · exact .refl _

theorem read_keeps {reader : Input → Reading × Input}
    (fits : ∀ i v, (reader i).1 = .value v → Cell.Fits v) (t : Token) (m : Machine) :
    m.tape.Keeps (m.read reader t).2.tape := by
  unfold read
  split
  · exact .refl _
  · dsimp only
    split
    · rename_i v value
      exact Tape.store_keeps fun _ => fits _ v value
    all_goals exact .refl _

theorem arm_keeps (p : Program) (t : Token) (m : Machine) : m.tape.Keeps (m.arm p t).2.tape :=
  settle_keeps fun _ _ => .refl _

theorem openLoop_keeps (p : Program) (t : Token) (m : Machine) :
    m.tape.Keeps (m.openLoop p t).2.tape := by
  unfold openLoop
  split
  · exact .refl _
  · exact arm_keeps p t m

theorem rewind_tape (l : Loop) (m : Machine) : (m.rewind l).2.tape = m.tape := by
  unfold rewind
  split <;> rfl

theorem closeLoop_keeps (t : Token) (m : Machine) : m.tape.Keeps (m.closeLoop t).2.tape := by
  unfold closeLoop
  split
  · exact .refl _
  · split
    · exact .refl _
    · dsimp only
      split
      · split
        · rename_i v paid
          rw [rewind_tape]
          exact store_keeps_of_applyAt paid
        · exact .refl _
      · rw [rewind_tape]
        exact .refl _

theorem branch_tape (p : Program) (t : Token) (m : Machine) : (m.branch p t).2.tape = m.tape := by
  unfold branch
  split
  · rfl
  · dsimp only
    split <;> rfl

theorem printLiteral_tape (p : Program) (m : Machine) : (m.printLiteral p).2.tape = m.tape := by
  unfold printLiteral
  split
  · rfl
  · split
    · exact emit_tape m _
    · split <;>
        · rename_i emitted
          exact (congrArg (fun r => r.2.tape) emitted).symm.trans (emit_tape m _)

theorem dispatch_keeps (p : Program) (t : Token) (m : Machine) :
    m.tape.Keeps (m.dispatch p t).2.tape := by
  unfold dispatch
  cases t.kind
  case moveLeft | moveRight => exact move_keeps p t _ m
  case increment | decrement => exact adjust_keeps p t _ m
  case multiply | divide | modulo => exact scale_keeps p t _ m
  case printChar | printInt => exact .of_eq (emit_tape m _)
  case printLiteral => exact .of_eq (printLiteral_tape p m)
  case readChar => exact read_keeps (fun _ _ => Input.fits_of_readChar) t m
  case readInt => exact read_keeps (fun _ _ => Input.fits_of_readInt) t m
  case cleanse => exact cleanse_keeps m
  case newline => exact m.tape.feed_keeps.trans (arm_keeps p t { m with tape := m.tape.feed })
  case loopStart => exact openLoop_keeps p t m
  case loopEnd => exact closeLoop_keeps t m
  case condStart => exact .of_eq (branch_tape p t m)
  all_goals exact .refl _

theorem Stepped.keeps {p : Program} {m m' : Machine} (h : Stepped p m m') :
    m.tape.Keeps m'.tape := by
  cases h with
  | ignored here commented => exact .refl _
  | @checked t _ taken dispatched fed =>
    have kept := dispatch_keeps p t m
    rw [dispatched] at kept
    exact kept
  | @skipped t _ taken dispatched =>
    have kept := dispatch_keeps p t m
    rw [dispatched] at kept
    exact kept

theorem after_keeps {p : Program} {m k : Machine} {n : Nat} (h : m.after p n = some k) :
    m.tape.Keeps k.tape :=
  after_invariant (fun k => m.tape.Keeps k.tape) (fun _ _ kept step => kept.trans step.keeps)
    (.refl _) h

end Machine

end HungryTape
