import HungryTape.Text.Numeral
import Mathlib.Data.Nat.Digits.Defs

namespace HungryTape.Numeral

/-- What digits are worth by their places in base ten, the last place being that of the units. -/
def placeValue (digits : List Nat) : Nat :=
  Nat.ofDigits 10 digits.reverse

theorem value_eq_placeValue (digits : List Nat) : value 10 digits = placeValue digits := by
  rw [placeValue, Nat.ofDigits_eq_foldr, List.foldr_reverse]
  simp only [value, Nat.cast_id, Nat.add_comm]

theorem ofDecimal?_eq_some_iff {cs : List Char} {n : Nat} :
    ofDecimal? cs = some n ↔
      cs ≠ [] ∧ (∀ c ∈ cs, c.isDigit = true) ∧ n = placeValue (cs.map charDigit) := by
  rw [ofDecimal?, Option.ite_none_right_eq_some, List.all_eq_true, ofDecimal, value_eq_placeValue,
    Option.some_inj, and_assoc, eq_comm (a := n)]

theorem unsigned?_eq_some_iff {cs : List Char} {n : Nat} :
    unsigned? cs = some n ↔
      ∃ digits, (cs = digits ∨ cs = '+' :: digits) ∧ ofDecimal? digits = some n := by
  fun_cases unsigned? cs with
  | case1 digits =>
    constructor
    · intro read
      exact ⟨digits, .inr rfl, read⟩
    · rintro ⟨_, rfl | same, read⟩
      · -- a plus sign is no digit
        exact absurd ((ofDecimal?_eq_some_iff.mp read).2.1 '+' (by simp)) (by decide)
      · cases same
        exact read
  | case2 cs unsigned =>
    constructor
    · intro read
      exact ⟨cs, .inl rfl, read⟩
    · rintro ⟨digits, rfl | signed, read⟩
      · exact read
      · exact absurd signed (unsigned digits)

/-- A row of digits, perhaps with a sign before it, denotes what the digits are worth. -/
inductive Denotes : List Char → Int → Prop where
  | plain {digits : List Char} (nonempty : digits ≠ [])
      (digital : ∀ c ∈ digits, c.isDigit = true) :
      Denotes digits (placeValue (digits.map charDigit))
  | plus {digits : List Char} (nonempty : digits ≠ [])
      (digital : ∀ c ∈ digits, c.isDigit = true) :
      Denotes ('+' :: digits) (placeValue (digits.map charDigit))
  | minus {digits : List Char} (nonempty : digits ≠ [])
      (digital : ∀ c ∈ digits, c.isDigit = true) :
      Denotes ('-' :: digits) (-placeValue (digits.map charDigit))

/-- A text is read as the number that it denotes, and not at all if it denotes none. -/
theorem integer?_eq_some_iff {text : String} {v : Int} :
    integer? text = some v ↔ Denotes text.toList v := by
  unfold integer?
  generalize text.toList = cs
  constructor
  · intro read
    split at read
    · obtain ⟨n, worth, rfl⟩ := Option.map_eq_some_iff.mp read
      obtain ⟨nonempty, digital, rfl⟩ := ofDecimal?_eq_some_iff.mp worth
      exact .minus nonempty digital
    · obtain ⟨n, unsigned, rfl⟩ := Option.map_eq_some_iff.mp read
      obtain ⟨digits, written, worth⟩ := unsigned?_eq_some_iff.mp unsigned
      obtain ⟨nonempty, digital, rfl⟩ := ofDecimal?_eq_some_iff.mp worth
      rcases written with rfl | rfl
      · exact .plain nonempty digital
      · exact .plus nonempty digital
  · intro denotes
    cases denotes with
    | minus nonempty digital =>
      simp [ofDecimal?_eq_some_iff.mpr ⟨nonempty, digital, rfl⟩]
    | plus nonempty digital =>
      have worth := ofDecimal?_eq_some_iff.mpr ⟨nonempty, digital, rfl⟩
      simp [unsigned?_eq_some_iff.mpr ⟨_, .inr rfl, worth⟩]
    | plain nonempty digital =>
      have worth := ofDecimal?_eq_some_iff.mpr ⟨nonempty, digital, rfl⟩
      split
      · -- a minus sign is no digit
        exact absurd (digital '-' (by simp)) (by decide)
      · simp [unsigned?_eq_some_iff.mpr ⟨_, .inl rfl, worth⟩]

theorem lt_of_mem_digits {base n d : Nat} (several : 2 ≤ base) (h : d ∈ digits base n) :
    d < base := by
  fun_induction digits base n with
  | case1 n large ih =>
    rcases List.mem_append.mp h with before | last
    · exact ih before
    · rw [List.mem_singleton.mp last]
      exact Nat.mod_lt n (by omega)
  | case2 n small =>
    rw [List.mem_singleton.mp h]
    omega

theorem digits_ne_nil (base n : Nat) : digits base n ≠ [] := by
  rw [digits]
  split <;> simp

theorem isDigit_of_mem_decimal {n : Nat} {c : Char} (h : c ∈ (decimal n).toList) :
    c.isDigit = true := by
  have written : ∀ d < 10, (digitChar d).isDigit = true := by decide
  rw [decimal, String.toList_ofList] at h
  obtain ⟨d, mem, rfl⟩ := List.mem_map.mp h
  exact written d (lt_of_mem_digits (by decide) mem)

theorem toList_decimal_ne_nil (n : Nat) : (decimal n).toList ≠ [] := by
  simp [decimal, digits_ne_nil]

/-- A numeral is worth the number that it was written for. -/
theorem placeValue_decimal (n : Nat) :
    placeValue ((decimal n).toList.map charDigit) = n := by
  have read : ∀ d < 10, charDigit (digitChar d) = d := by decide
  have same : (decimal n).toList.map charDigit = (digits 10 n).map id := by
    rw [decimal, String.toList_ofList, List.map_map]
    apply List.map_congr_left
    intro d mem
    exact read d (lt_of_mem_digits (by decide) mem)
  rw [same, List.map_id, ← value_eq_placeValue, value_digits]

/-- The digit that a character stands for, in bases up to sixteen. -/
def digitOf (c : Char) : Nat :=
  if c.toNat < 58 then c.toNat - 48 else c.toNat - 87

/-- Different numbers are written differently. -/
theorem eq_of_map_digitChar {base m n : Nat} (several : 2 ≤ base) (few : base ≤ 16)
    (h : (digits base m).map digitChar = (digits base n).map digitChar) : m = n := by
  have read : ∀ d < 16, digitOf (digitChar d) = d := by decide
  have back (k : Nat) : ((digits base k).map digitChar).map digitOf = (digits base k).map id := by
    rw [List.map_map]
    apply List.map_congr_left
    intro d mem
    exact read d (Nat.lt_of_lt_of_le (lt_of_mem_digits several mem) few)
  have same : digits base m = digits base n := by
    rw [← List.map_id (digits base m), ← back, h, back, List.map_id]
  rw [← value_digits base m, same, value_digits]

end HungryTape.Numeral
