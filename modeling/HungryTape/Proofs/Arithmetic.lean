import HungryTape.Proofs.TapeBounds

namespace HungryTape

/-- Only the least cell value divided by minus one leaves the range. -/
theorem Cell.fits_tdiv_iff {a b : Int} (fits : Cell.Fits a) (nonzero : b ≠ 0) :
    Cell.Fits (a.tdiv b) ↔ ¬ (a = Cell.least ∧ b = -1) := by
  unfold Cell.Fits Cell.least Cell.greatest at *
  by_cases minus : b = -1
  · have negated : a.tdiv b = -a := by rw [minus, Int.tdiv_neg, Int.tdiv_one]
    omega
  · by_cases one : b = 1
    · rw [one, Int.tdiv_one]
      omega
    · have half : (a.tdiv b).natAbs ≤ a.natAbs / 2 := by
        rw [Int.natAbs_tdiv]
        exact Nat.div_le_div_left (by omega) (by decide)
      omega

/-- A remainder does not go against the sign of its dividend. -/
theorem Cell.tmod_sign (a b : Int) : a.tmod b = 0 ∨ (a.tmod b).sign = a.sign := by
  by_cases zero : a.tmod b = 0
  · exact .inl zero
  · right
    have nonzero : a ≠ 0 := by
      rintro rfl
      exact zero (Int.zero_tmod b)
    rcases Int.le_total 0 a with positive | negative
    · have left : 0 ≤ a.tmod b := Int.tmod_nonneg b positive
      rw [Int.sign_eq_one_of_pos (by omega), Int.sign_eq_one_of_pos (by omega)]
    · have left : 0 ≤ (-a).tmod b := Int.tmod_nonneg b (by omega)
      rw [Int.neg_tmod] at left
      rw [Int.sign_eq_neg_one_of_neg (by omega), Int.sign_eq_neg_one_of_neg (by omega)]

namespace Operator

/-- The operators that ask for a divisor. -/
def divides : Operator → Bool
  | div | mod => true
  | add | sub | mul => false

/-- What a zero divisor is called. -/
def zeroFault (location : Location) : Operator → Fault
  | mod => .moduloByZero location
  | _ => .divisionByZero location

variable {op : Operator} {a b : Int} {location : Location}

theorem applyAt_of_zero (divides : op.divides = true) :
    op.applyAt location a 0 = .error (op.zeroFault location) := by
  cases op <;> simp only [Operator.divides, Bool.false_eq_true] at divides <;> rfl

theorem applyAt_of_nonzero (nonzero : op.divides = true → b ≠ 0) :
    op.applyAt location a b =
      if Cell.Fits (op.widest a b) then .ok (op.exact a b)
      else .error (.overflow (.operation a op b) location) := by
  have divided : ¬ (op = .div ∧ b = 0) := by
    rintro ⟨rfl, zero⟩
    exact nonzero rfl zero
  have reduced : ¬ (op = .mod ∧ b = 0) := by
    rintro ⟨rfl, zero⟩
    exact nonzero rfl zero
  unfold applyAt apply
  rw [if_neg divided, if_neg reduced]
  by_cases fits : Cell.Fits (op.widest a b)
  · rw [if_pos fits, if_pos fits]
  · rw [if_neg fits, if_neg fits]

theorem applyAt_of_exact (exact : op.divides = false) :
    op.applyAt location a b =
      if Cell.Fits (op.exact a b) then .ok (op.exact a b)
      else .error (.overflow (.operation a op b) location) := by
  have widest : op.widest a b = op.exact a b := by
    cases op <;> simp only [Operator.divides, Bool.true_eq_false] at exact <;> rfl
  rw [applyAt_of_nonzero (by simp [exact]), widest]

theorem widest_of_divides (divides : op.divides = true) : op.widest a b = a.tdiv b := by
  cases op <;> simp only [Operator.divides, Bool.false_eq_true] at divides <;> rfl

/-- The quotient decides, also where only the remainder is asked for. -/
theorem applyAt_of_quotient (divides : op.divides = true) (left : Cell.Fits a) (nonzero : b ≠ 0) :
    op.applyAt location a b =
      if a = Cell.least ∧ b = -1 then .error (.overflow (.operation a op b) location)
      else .ok (op.exact a b) := by
  rw [applyAt_of_nonzero fun _ => nonzero, widest_of_divides divides]
  by_cases corner : a = Cell.least ∧ b = -1
  · rw [if_neg fun fits => (Cell.fits_tdiv_iff left nonzero).mp fits corner, if_pos corner]
  · rw [if_pos ((Cell.fits_tdiv_iff left nonzero).mpr corner), if_neg corner]

theorem applyAt_eq_zeroFault_iff (divides : op.divides = true) (left : Cell.Fits a) :
    op.applyAt location a b = .error (op.zeroFault location) ↔ b = 0 := by
  constructor
  · intro failed
    by_cases zero : b = 0
    · exact zero
    · rw [applyAt_of_quotient divides left zero] at failed
      split at failed
      · cases op <;> cases failed
      · cases failed
  · rintro rfl
    exact applyAt_of_zero divides

theorem applyAt_eq_overflow_iff (divides : op.divides = true) (left : Cell.Fits a) :
    (∃ cause, op.applyAt location a b = .error (.overflow cause location)) ↔
      a = Cell.least ∧ b = -1 := by
  constructor
  · rintro ⟨cause, failed⟩
    by_cases zero : b = 0
    · rw [zero, applyAt_of_zero divides] at failed
      cases op <;> cases failed
    · rw [applyAt_of_quotient divides left zero] at failed
      split at failed
      · assumption
      · cases failed
  · rintro ⟨rfl, rfl⟩
    exact ⟨_, applyAt_of_quotient divides left (by decide)⟩

theorem applyAt_eq_ok_iff (divides : op.divides = true) (left : Cell.Fits a) :
    (∃ v, op.applyAt location a b = .ok v) ↔ b ≠ 0 ∧ ¬ (a = Cell.least ∧ b = -1) := by
  constructor
  · rintro ⟨v, done⟩
    constructor
    · rintro rfl
      rw [applyAt_of_zero divides] at done
      cases done
    · intro corner
      have failed : ∃ cause, op.applyAt location a b = .error (.overflow cause location) :=
        (applyAt_eq_overflow_iff divides left).mpr corner
      obtain ⟨cause, failed⟩ := failed
      rw [failed] at done
      cases done
  · rintro ⟨nonzero, other⟩
    exact ⟨_, (applyAt_of_quotient divides left nonzero).trans (if_neg other)⟩

/-- For all cells `a` and every `b`, sums, differences and products are exact or overflow. Quotient
and remainder fail by their own names just on a zero divisor, overflow just for the least cell value
and minus one, and so succeed on the same pairs. There the quotient times `b` and the remainder
make `a`, and the remainder is smaller than `b` and is zero or has the sign of `a`. -/
theorem arithmetic_exact (location : Location) {a b : Int} (left : Cell.Fits a) :
    (∀ op result, (op, result) ∈ [(add, a + b), (sub, a - b), (mul, a * b)] →
      op.applyAt location a b =
        if -2147483648 ≤ result ∧ result ≤ 2147483647 then .ok result
        else .error (.overflow (.operation a op b) location)) ∧
    (div.applyAt location a b = .error (.divisionByZero location) ↔ b = 0) ∧
    (mod.applyAt location a b = .error (.moduloByZero location) ↔ b = 0) ∧
    ((∃ q, div.applyAt location a b = .ok q) ↔ ∃ r, mod.applyAt location a b = .ok r) ∧
    (∀ op, op = div ∨ op = mod →
      ((∃ cause, op.applyAt location a b = .error (.overflow cause location)) ↔
        a = -2147483648 ∧ b = -1)) ∧
    (b ≠ 0 → ¬ (a = -2147483648 ∧ b = -1) →
      ∃ q r, div.applyAt location a b = .ok q ∧ mod.applyAt location a b = .ok r ∧
        a = q * b + r ∧ r.natAbs < b.natAbs ∧ (r = 0 ∨ r.sign = a.sign)) := by
  refine ⟨?_, applyAt_eq_zeroFault_iff rfl left, applyAt_eq_zeroFault_iff rfl left, ?_, ?_, ?_⟩
  · intro op result mem
    simp only [List.mem_cons, Prod.mk.injEq, List.not_mem_nil, or_false] at mem
    rcases mem with ⟨rfl, rfl⟩ | ⟨rfl, rfl⟩ | ⟨rfl, rfl⟩ <;> exact applyAt_of_exact rfl
  · rw [applyAt_eq_ok_iff rfl left, applyAt_eq_ok_iff rfl left]
  · rintro op (rfl | rfl) <;> exact applyAt_eq_overflow_iff rfl left
  · intro nonzero other
    refine ⟨a.tdiv b, a.tmod b, ?_, ?_, ?_, ?_, Cell.tmod_sign a b⟩
    · exact (applyAt_of_quotient rfl left nonzero).trans (if_neg other)
    · exact (applyAt_of_quotient rfl left nonzero).trans (if_neg other)
    · rw [Int.mul_comm, Int.mul_tdiv_add_tmod]
    · rw [Int.natAbs_tmod]
      exact Nat.mod_lt _ (Int.natAbs_pos.mpr nonzero)

/-- The least cell value has no product, quotient or remainder with minus one, and by three it
leaves a negative remainder. -/
theorem arithmetic_exact_least :
    let least : Int := -2147483648
    (∃ cause, div.applyAt .start least (-1) = .error (.overflow cause .start)) ∧
    (∃ cause, mod.applyAt .start least (-1) = .error (.overflow cause .start)) ∧
    mul.applyAt .start least (-1) = .error (.overflow (.operation least mul (-1)) .start) ∧
    ∃ q r, div.applyAt .start least 3 = .ok q ∧ mod.applyAt .start least 3 = .ok r ∧
      least = q * 3 + r ∧ r.natAbs < 3 ∧ r.sign = -1 := by
  intro least
  have fits : Cell.Fits least := by decide
  obtain ⟨exact, -, -, -, overflow, -⟩ := arithmetic_exact (b := -1) .start fits
  obtain ⟨-, -, -, -, -, quotient⟩ := arithmetic_exact (b := 3) .start fits
  obtain ⟨q, r, divided, reduced, whole, small, sign⟩ := quotient (by decide) (by decide)
  refine ⟨(overflow div (.inl rfl)).mpr ⟨rfl, rfl⟩, (overflow mod (.inr rfl)).mpr ⟨rfl, rfl⟩,
    (exact mul 2147483648 (by decide)).trans (if_neg (by decide)), q, r, divided, reduced, whole,
    small, ?_⟩
  rcases sign with rfl | sign
  · omega
  · exact sign

end Operator

end HungryTape
