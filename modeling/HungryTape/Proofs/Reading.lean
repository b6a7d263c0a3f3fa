import HungryTape.Proofs.Consoles

/-!
The readers only go forward, and of the bytes that they leave they have looked at no more than the
first. So they cannot tell an input from one that is cut off behind that byte.
-/

namespace HungryTape

namespace Input

theorem skip_skip (i : Input) (a b : Nat) : (i.skip a).skip b = i.skip (a + b) := by
  simp only [skip, List.drop_drop, List.length_drop, Input.mk.injEq, true_and, and_true]
  omega

theorem consumed_le_skip (i : Input) (n : Nat) : i.consumed ≤ (i.skip n).consumed :=
  Nat.le_add_right _ _

/-- A byte is either taken or left. -/
theorem total_skip (i : Input) (n : Nat) :
    (i.skip n).consumed + (i.skip n).rest.length = i.consumed + i.rest.length := by
  simp only [skip, List.length_drop]
  omega

/-- The sign that the bytes start with. -/
def sign (bytes : List UInt8) : List UInt8 :=
  (bytes.take 1).filter isSignByte

/-- The digits behind the sign. -/
def digits (bytes : List UInt8) : List UInt8 :=
  (bytes.drop (sign bytes).length).takeWhile isDigitByte

def skipNumeral (i : Input) : Input :=
  i.skip ((sign i.rest).length + (digits i.rest).length)

theorem skipNumeral_eq (i : Input) :
    i.skipNumeral = (i.skip (sign i.rest).length).skip (digits i.rest).length := by
  rw [skip_skip]
  rfl

theorem readChar_of_empty {i : Input} (h : i.skipBlanks.rest = []) :
    i.readChar = (i.atEnd, i.skipBlanks) := by
  simp only [readChar, h]
  rfl

theorem readChar_of_cons {i : Input} {b : UInt8} {rest : List UInt8}
    (h : i.skipBlanks.rest = b :: rest) : i.readChar = (.value b.toNat, i.skipBlanks.skip 1) := by
  simp only [readChar, h]

theorem readInt_eq (i : Input) :
    i.readInt = match i.skipBlanks.skipNumeral.rest, i.failure with
      | [], some message => (.failed message, i.skipBlanks.skipNumeral)
      | rest, _ => (interpret ((sign i.skipBlanks.rest).map Text.latin1Char)
          ((digits i.skipBlanks.rest).map Text.latin1Char) rest.head?, i.skipBlanks.skipNumeral) :=
  rfl

theorem readInt_snd (i : Input) : i.readInt.2 = i.skipBlanks.skipNumeral := by
  rw [readInt_eq]
  split <;> rfl

theorem readInt_of_failed {i : Input} {message : String} (failure : i.failure = some message)
    (h : i.skipBlanks.skipNumeral.rest = []) : i.readInt.1 = .failed message := by
  simp only [readInt_eq, h, failure]

theorem readInt_of_cons {i : Input} {b : UInt8} {rest : List UInt8}
    (h : i.skipBlanks.skipNumeral.rest = b :: rest) :
    i.readInt.1 = interpret ((sign i.skipBlanks.rest).map Text.latin1Char)
      ((digits i.skipBlanks.rest).map Text.latin1Char) (some b) := by
  simp only [readInt_eq, h, List.head?_cons]

theorem reader_skips {reader : Input → Reading × Input}
    (reads : reader = Input.readChar ∨ reader = Input.readInt) (i : Input) :
    ∃ n, (reader i).2 = i.skip n := by
  rcases reads with rfl | rfl
  · cases left : i.skipBlanks.rest with
    | nil =>
      rw [readChar_of_empty left]
      exact ⟨_, rfl⟩
    | cons b rest =>
      rw [readChar_of_cons left]
      exact ⟨_, skip_skip i _ 1⟩
  · rw [readInt_snd]
    exact ⟨_, skip_skip i _ _⟩

theorem total_reader {reader : Input → Reading × Input}
    (reads : reader = Input.readChar ∨ reader = Input.readInt) (i : Input) :
    (reader i).2.consumed + (reader i).2.rest.length = i.consumed + i.rest.length := by
  obtain ⟨n, skipped⟩ := reader_skips reads i
  rw [skipped, total_skip]

/-- The first input has the first bytes of the second one and fails where they end. -/
structure Cuts (i i' : Input) : Prop where
  consumed : i'.consumed = i.consumed
  initial : i.rest <+: i'.rest
  fails : ∃ message, i.failure = some message

/-- The first input has come to its end, and the second one is at least as far. -/
structure Outrun (i i' : Input) : Prop where
  empty : i.rest = []
  consumed : i.consumed ≤ i'.consumed

theorem Outrun.skip {i i' : Input} (h : Outrun i i') (n : Nat) : Outrun i (i'.skip n) :=
  { h with consumed := Nat.le_trans h.consumed (consumed_le_skip i' n) }

theorem Outrun.skip_both {i i' : Input} (h : Outrun i i') (m n : Nat) :
    Outrun (i.skip m) (i'.skip n) := by
  have stays : (i.skip m).consumed = i.consumed := by simp [Input.skip, h.empty]
  refine ⟨by simp [Input.skip, h.empty], ?_⟩
  rw [stays]
  exact (h.skip n).consumed

section

variable {i i' : Input}

theorem Cuts.skip (h : Cuts i i') {n : Nat} (inside : n ≤ i.rest.length) :
    Cuts (i.skip n) (i'.skip n) := by
  obtain ⟨more, whole⟩ := h.initial
  refine ⟨?_, ⟨more, ?_⟩, h.fails⟩
  · have consumed := h.consumed
    simp only [Input.skip, ← whole, List.length_append]
    omega
  · simp only [Input.skip, ← whole, List.drop_append_of_le_length inside]

/-- A run of bytes either stops inside the cut input or takes all of it. -/
theorem Cuts.takeWhile (h : Cuts i i') (test : UInt8 → Bool) :
    Outrun (i.skip (i.rest.takeWhile test).length) (i'.skip (i'.rest.takeWhile test).length) ∨
    i'.rest.takeWhile test = i.rest.takeWhile test ∧
      (i.skip (i.rest.takeWhile test).length).rest ≠ [] := by
  obtain ⟨more, whole⟩ := h.initial
  rw [← whole, List.takeWhile_append]
  split
  · rename_i all
    left
    have consumed := h.consumed
    refine ⟨by simp [Input.skip, all], ?_⟩
    simp only [Input.skip, ← whole, all, List.length_append]
    omega
  · rename_i stops
    right
    refine ⟨rfl, ?_⟩
    have shorter := (List.takeWhile_prefix test (l := i.rest)).length_le
    intro empty
    have none_left : i.rest.length ≤ (i.rest.takeWhile test).length :=
      List.drop_eq_nil_iff.mp empty
    omega

theorem Cuts.skipBlanks (h : Cuts i i') :
    Outrun i.skipBlanks i'.skipBlanks ∨
      Cuts i.skipBlanks i'.skipBlanks ∧ i.skipBlanks.rest ≠ [] := by
  rcases h.takeWhile isBlank with outrun | ⟨same, left⟩
  · exact .inl outrun
  · refine .inr ⟨?_, left⟩
    unfold Input.skipBlanks
    rw [same]
    exact h.skip (List.takeWhile_prefix _).length_le

theorem Cuts.sign (h : Cuts i i') (left : i.rest ≠ []) :
    Input.sign i'.rest = Input.sign i.rest := by
  obtain ⟨more, whole⟩ := h.initial
  cases bytes : i.rest with
  | nil => exact absurd bytes left
  | cons b rest =>
    rw [← whole, bytes]
    simp [Input.sign]

theorem length_sign_le (bytes : List UInt8) : (Input.sign bytes).length ≤ bytes.length :=
  Nat.le_trans (List.length_filter_le _ _) (List.length_take_le' 1 bytes)

theorem Cuts.skipNumeral (h : Cuts i i') (left : i.rest ≠ []) :
    Outrun i.skipNumeral i'.skipNumeral ∨
      Cuts i.skipNumeral i'.skipNumeral ∧ i.skipNumeral.rest ≠ [] ∧
        Input.digits i'.rest = Input.digits i.rest := by
  have signed := h.skip (length_sign_le i.rest)
  rw [skipNumeral_eq, skipNumeral_eq, h.sign left]
  have digits : Input.digits i'.rest =
      (i'.skip (Input.sign i.rest).length).rest.takeWhile isDigitByte := by
    rw [← h.sign left]
    rfl
  rw [digits]
  rcases signed.takeWhile isDigitByte with outrun | ⟨same, left⟩
  · exact .inl outrun
  · refine .inr ⟨?_, left, same⟩
    rw [same]
    exact signed.skip (List.takeWhile_prefix _).length_le

theorem readChar_cut (h : Cuts i i') :
    (i'.readChar.1 = i.readChar.1 ∧ Cuts i.readChar.2 i'.readChar.2) ∨
    ∃ message, i.readChar.1 = .failed message ∧ Outrun i.readChar.2 i'.readChar.2 := by
  obtain ⟨message, failure⟩ := h.fails
  rcases h.skipBlanks with outrun | ⟨cuts, left⟩
  · have failed : i.atEnd = .failed message := by simp only [atEnd, failure]
    rw [readChar_of_empty outrun.empty]
    refine .inr ⟨message, failed, ?_⟩
    cases left' : i'.skipBlanks.rest with
    | nil => rwa [readChar_of_empty left']
    | cons b rest =>
      rw [readChar_of_cons left']
      exact outrun.skip 1
  · obtain ⟨b, rest, bytes⟩ := List.exists_cons_of_ne_nil left
    obtain ⟨more, whole⟩ := cuts.initial
    rw [bytes] at whole
    rw [readChar_of_cons bytes, readChar_of_cons whole.symm]
    exact .inl ⟨rfl, cuts.skip (by simp [bytes])⟩

theorem readInt_cut (h : Cuts i i') :
    (i'.readInt.1 = i.readInt.1 ∧ Cuts i.readInt.2 i'.readInt.2) ∨
    ∃ message, i.readInt.1 = .failed message ∧ Outrun i.readInt.2 i'.readInt.2 := by
  obtain ⟨message, failure⟩ := h.fails
  rw [readInt_snd, readInt_snd]
  rcases h.skipBlanks with outrun | ⟨cuts, left⟩
  · have outrun : Outrun i.skipBlanks.skipNumeral i'.skipBlanks.skipNumeral :=
      outrun.skip_both _ _
    exact .inr ⟨message, readInt_of_failed failure outrun.empty, outrun⟩
  · rcases cuts.skipNumeral left with outrun | ⟨cut, left', digits⟩
    · exact .inr ⟨message, readInt_of_failed failure outrun.empty, outrun⟩
    -- Without digits the reading names the byte that stands in their place, so the cut input has to
    -- go on behind the numeral.
    · obtain ⟨b, rest, bytes⟩ := List.exists_cons_of_ne_nil left'
      obtain ⟨more, whole⟩ := cut.initial
      rw [bytes] at whole
      rw [readInt_of_cons bytes, readInt_of_cons whole.symm, cuts.sign left, digits]
      exact .inl ⟨rfl, cut⟩

/-- The readers cannot tell the inputs apart as long as they do not come to the end of the first. -/
theorem reader_cut {reader : Input → Reading × Input}
    (reads : reader = Input.readChar ∨ reader = Input.readInt) (h : Cuts i i') :
    ((reader i').1 = (reader i).1 ∧ Cuts (reader i).2 (reader i').2) ∨
    ∃ message, (reader i).1 = .failed message ∧ Outrun (reader i).2 (reader i').2 := by
  rcases reads with rfl | rfl
  · exact readChar_cut h
  · exact readInt_cut h

end

end Input

/-- A program only goes forward in its input. -/
theorem Console.Becomes.skips {c d : Console} (h : c.Becomes d) :
    ∃ n, d.input = c.input.skip n := by
  induction h with
  | refl => exact ⟨0, by simp [Input.skip]⟩
  | note _ _ ih | write _ _ ih | flush _ ih => exact ih
  | take _ reads ih =>
    obtain ⟨n, skipped⟩ := ih
    obtain ⟨k, more⟩ := Input.reader_skips reads (c.input.skip n)
    refine ⟨n + k, ?_⟩
    rw [Console.take, skipped, more, Input.skip_skip]

theorem Console.Becomes.consumed_le {c d : Console} (h : c.Becomes d) :
    c.input.consumed ≤ d.input.consumed := by
  obtain ⟨n, skipped⟩ := h.skips
  rw [skipped]
  exact Input.consumed_le_skip _ n

end HungryTape
