import HungryTape.Proofs.Operands
import HungryTape.Proofs.TapeBounds

namespace HungryTape

namespace Tape

def widen (t : Tape) (room : Nat) : Tape :=
  { t with cells := t.cells ++ Array.replicate room 0 }

theorem widen_zero (t : Tape) : t.widen 0 = t := by
  simp [widen]

section

variable {t : Tape} (room : Nat)

theorem getD_zeros (cells : Array Int) (i : Nat) :
    (cells ++ Array.replicate room 0).getD i 0 = cells.getD i 0 := by
  simp only [Array.getD_eq_getD_getElem?]
  by_cases inside : i < cells.size
  · rw [Array.getElem?_append_left inside]
  · rw [Array.getElem?_append_right (Nat.le_of_not_lt inside),
      Array.getElem?_eq_none (Nat.le_of_not_lt inside)]
    by_cases behind : i - cells.size < room <;> simp [behind]

@[simp]
theorem value_widen : (t.widen room).value = t.value :=
  getD_zeros room t.cells t.current

@[simp]
theorem stomachValue_widen : (t.widen room).stomachValue = t.stomachValue :=
  getD_zeros room t.cells t.stomach

theorem cells_widen_of_some {i : Nat} {v : Int} (h : t.cells[i]? = some v) :
    (t.widen room).cells[i]? = some v := by
  obtain ⟨inside, -⟩ := Array.getElem?_eq_some_iff.mp h
  rw [widen, Array.getElem?_append_left inside, h]

theorem Valid.store_widen (valid : t.Valid) (v : Int) :
    (t.widen room).store v = (t.store v).widen room := by
  simp only [store, widen, Array.setIfInBounds_append, valid.current_lt, ↓reduceIte]

theorem Valid.feed_widen (valid : t.Valid) : (t.widen room).feed = t.feed.widen room := by
  simp only [feed, stomachValue_widen]
  simp only [widen, Array.setIfInBounds_append, valid.stomach_lt, ↓reduceIte]

theorem target_widen {delta : Int} {index : Nat} (h : t.target delta = .ok index) :
    (t.widen room).target delta = .ok index := by
  unfold target at h ⊢
  dsimp only at h ⊢
  split at h
  · rename_i inside
    have inside' : 0 ≤ t.current + delta ∧
        t.current + delta < (t.cells ++ Array.replicate room 0).size := by
      rw [Array.size_append]
      omega
    rw [← h]
    simp only [widen, inside', and_self, ↓reduceIte]
  · simp at h

end

end Tape

/-- The machine has left its tape or looked outside it. -/
def Fault.OffTape (f : Fault) : Prop :=
  ∃ index capacity location, f = .cellOutOfRange index capacity location

/-- The second answer is that of a tape with more room. It may differ from the first one if that
leaves its tape. -/
def Widened {α : Type} (room : Nat) (x x' : Except Fault α) : Prop :=
  x' = x ∨ 0 < room ∧ ∃ f, x = .error f ∧ f.OffTape

namespace Widened

variable {α β : Type} {room : Nat}

theorem refl (x : Except Fault α) : Widened room x x :=
  .inl rfl

theorem bind {x x' : Except Fault α} {g g' : α → Except Fault β} (h : Widened room x x')
    (next : ∀ a, Widened room (g a) (g' a)) : Widened room (x >>= g) (x' >>= g') := by
  rcases h with rfl | ⟨wider, f, rfl, offTape⟩
  · cases x' with
    | error f => exact refl _
    | ok a => exact next a
  · exact .inr ⟨wider, f, rfl, offTape⟩

theorem map {x x' : Except Fault α} (g : α → β) (h : Widened room x x') :
    Widened room (x.map g) (x'.map g) := by
  rcases h with rfl | ⟨wider, f, rfl, offTape⟩
  · exact refl _
  · exact .inr ⟨wider, f, rfl, offTape⟩

/-- Without more room there is nothing to tell apart. -/
theorem of_wider {t : Tape} {look : Tape → Except Fault α}
    (h : 0 < room → Widened room (look t) (look (t.widen room))) :
    Widened room (look t) (look (t.widen room)) := by
  rcases Nat.eq_zero_or_pos room with rfl | wider
  · rw [Tape.widen_zero]
    exact refl _
  · exact h wider

end Widened

theorem Token.cell_widened (room : Nat) (t : Token) (tape : Tape) :
    Widened room (t.cell tape) (t.cell (tape.widen room)) := by
  apply Widened.of_wider
  intro wider
  cases looked : t.cell tape with
  | ok v =>
    obtain ⟨index, read, found⟩ := Token.cell_eq_ok_iff.mp looked
    left
    exact Token.cell_eq_ok_iff.mpr ⟨index, read, Tape.cells_widen_of_some room found⟩
  | error f =>
    obtain ⟨-, rfl⟩ := Token.cell_eq_error_iff.mp looked
    exact .inr ⟨wider, _, rfl, _, _, _, rfl⟩

theorem Tape.target_widened (room : Nat) (t : Tape) (delta : Int) (location : Location) :
    let look (t : Tape) : Except Fault Nat :=
      match t.target delta with
      | .ok index => .ok index
      | .error e => .error (.cellOutOfRange e.index e.capacity location)
    Widened room (look t) (look (t.widen room)) := by
  intro look
  apply Widened.of_wider
  intro wider
  cases reached : t.target delta with
  | ok index =>
    left
    simp only [look, reached, Tape.target_widen room reached]
  | error e =>
    have failed : look t = .error (.cellOutOfRange e.index e.capacity location) := by
      simp only [look, reached]
    exact .inr ⟨wider, _, failed, _, _, _, rfl⟩

namespace Cursor

variable (room : Nat) (c : Cursor) (tape : Tape)

theorem mentioned_widened (offset : Nat) :
    Widened room (c.mentioned tape offset) (c.mentioned (tape.widen room) offset) := by
  unfold mentioned
  split
  · split
    · exact (Token.cell_widened room _ tape).map some
    · exact .refl _
  · exact .refl _

theorem argument_widened :
    Widened room (c.argument tape) (c.argument (tape.widen room)) := by
  unfold argument
  split
  · split
    · exact .refl _
    · rcases mentioned_widened room c tape 3 with same | ⟨wider, f, failed, offTape⟩
      · rw [same]
        exact .refl _
      · simp only [failed]
        exact .inr ⟨wider, f, rfl, offTape⟩
    · exact .refl _
  · exact .refl _

theorem argumentOr_widened (default : Int) :
    Widened room (c.argumentOr tape default) (c.argumentOr (tape.widen room) default) :=
  (argument_widened room c tape).map _

theorem conditionOperand_widened (location : Location) (offset : Nat) :
    Widened room (c.conditionOperand tape location offset)
      (c.conditionOperand (tape.widen room) location offset) := by
  unfold conditionOperand
  split
  · exact .refl _
  · split
    · exact .refl _
    · rcases mentioned_widened room c tape (offset + 1) with same | ⟨wider, f, failed, offTape⟩
      · rw [same]
        exact .refl _
      · simp only [failed]
        exact .inr ⟨wider, f, rfl, offTape⟩
    · exact .refl _

theorem condition_widened (location : Location) :
    Widened room (c.condition tape location) (c.condition (tape.widen room) location) := by
  apply (conditionOperand_widened room c tape location 2).bind
  intro left
  split
  · exact .refl _
  · apply (conditionOperand_widened room c tape location 7).bind
    intro right
    exact .refl _

end Cursor

end HungryTape
