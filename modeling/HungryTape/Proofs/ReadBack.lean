import HungryTape.Proofs.Integers

namespace HungryTape

namespace Numeral

/-- The digits of a number as they are written. -/
def digitBytes (n : Nat) : List UInt8 :=
  (digits 10 n).map fun d => UInt8.ofNat (48 + d)

theorem utf8_decimal (n : Nat) : Text.utf8 (decimal n) = digitBytes n := by
  have ascii : ∀ d < 10, String.utf8EncodeChar (digitChar d) = [UInt8.ofNat (48 + d)] := by decide
  rw [Text.utf8, decimal, String.toList_ofList, List.flatMap_map, digitBytes, List.map_eq_flatMap]
  apply List.flatMap_congr
  intro d mem
  exact ascii d (lt_of_mem_digits (by decide) mem)

theorem digitBytes_ne_nil (n : Nat) : digitBytes n ≠ [] := by
  simp [digitBytes, digits_ne_nil]

theorem digital_digitBytes (n : Nat) : ∀ b ∈ digitBytes n, 48 ≤ b ∧ b ≤ 57 := by
  have ascii : ∀ d < 10, 48 ≤ UInt8.ofNat (48 + d) ∧ UInt8.ofNat (48 + d) ≤ 57 := by decide
  intro b written
  obtain ⟨d, mem, rfl⟩ := List.mem_map.mp written
  exact ascii d (lt_of_mem_digits (by decide) mem)

theorem placeValue_digitBytes (n : Nat) :
    placeValue ((digitBytes n).map fun b => b.toNat - 48) = n := by
  have ascii : ∀ d < 10, (UInt8.ofNat (48 + d)).toNat - 48 = d := by decide
  have same : (digitBytes n).map (fun b => b.toNat - 48) = (digits 10 n).map id := by
    rw [digitBytes, List.map_map]
    apply List.map_congr_left
    intro d mem
    exact ascii d (lt_of_mem_digits (by decide) mem)
  rw [same, List.map_id, ← value_eq_placeValue, value_digits]

end Numeral

/-- What `=` prints for a value. -/
def Cell.line (v : Int) : List UInt8 :=
  Text.utf8 (Numeral.signed v ++ "\n")

namespace Entry

/-- Blanks and a value as it is printed. -/
def ofValue (blanks : List UInt8) (blank : blanks ⊆ blankBytes) (v : Int) : Entry where
  blanks
  sign := if v < 0 then some 45 else none
  digits := Numeral.digitBytes v.natAbs
  blank
  signed := by
    intro b mem
    split at mem <;> cases mem
    simp
  digital := Numeral.digital_digitBytes v.natAbs

variable {blanks : List UInt8} (blank : blanks ⊆ blankBytes)

theorem worth_ofValue (v : Int) : (ofValue blanks blank v).worth = v := by
  by_cases negative : v < 0
  · simp only [worth, ofValue, negative, if_true, Numeral.placeValue_digitBytes]
    omega
  · simp only [worth, ofValue, negative, if_false, reduceCtorEq, Numeral.placeValue_digitBytes]
    omega

theorem bytes_ofValue (v : Int) :
    (ofValue blanks blank v).bytes ++ [10] = blanks ++ Cell.line v := by
  have append (a b : String) : Text.utf8 (a ++ b) = Text.utf8 a ++ Text.utf8 b := by
    simp [Text.utf8]
  have newline : Text.utf8 "\n" = [10] := by decide
  have minus : Text.utf8 "-" = [45] := by decide
  by_cases negative : v < 0
  · simp [bytes, ofValue, Cell.line, Numeral.signed, negative, append, newline, minus,
      Numeral.utf8_decimal]
  · simp [bytes, ofValue, Cell.line, Numeral.signed, negative, append, newline,
      Numeral.utf8_decimal]

/-- A newline ends a printed value. -/
theorem ofValue_ends (v : Int) : (ofValue blanks blank v).Ends 10 := by
  refine ⟨by decide, ?_⟩
  intro _ empty
  exact absurd empty (Numeral.digitBytes_ne_nil v.natAbs)

end Entry

namespace Input

/-- Reads some integers, one after the other. -/
def readInts (i : Input) : Nat → List Reading × Input
  | 0 => ([], i)
  | n + 1 => (i.readInt.1 :: (i.readInt.2.readInts n).1, (i.readInt.2.readInts n).2)

variable {i : Input} {blanks more : List UInt8}

theorem total_readInts (i : Input) (n : Nat) :
    (i.readInts n).2.consumed + (i.readInts n).2.rest.length = i.consumed + i.rest.length := by
  induction n generalizing i with
  | zero => rfl
  | succ n ih =>
    rw [readInts, ih]
    exact total_reader (.inr rfl) i

theorem readInt_of_line (blank : blanks ⊆ blankBytes) {v : Int}
    (fits : Cell.Fits v) (whole : i.rest = blanks ++ (Cell.line v ++ more)) :
    i.readInt.1 = .value v ∧ i.readInt.2.rest = 10 :: more ∧ i.readInt.2.failure = i.failure := by
  have whole : i.rest = (Entry.ofValue blanks blank v).bytes ++ 10 :: more := by
    rw [whole, ← List.append_assoc, ← Entry.bytes_ofValue blank, List.append_assoc]
    rfl
  have ends : ∀ b ∈ (10 :: more).head?, (Entry.ofValue blanks blank v).Ends b := by
    rintro _ ⟨⟩
    exact Entry.ofValue_ends blank v
  have read := readInt_of_entry whole ends
  refine ⟨?_, by rw [read], by rw [read]⟩
  rw [read]
  apply Entry.reading_eq_value_iff.mpr
  rw [Entry.worth_ofValue]
  exact ⟨Numeral.digitBytes_ne_nil v.natAbs, fits, rfl⟩

/-- Behind the last value there is the newline that was printed with it. -/
theorem readInts_of_lines {vs : List Int} (fits : ∀ v ∈ vs, Cell.Fits v)
    (blank : blanks ⊆ blankBytes)
    (whole : i.rest = blanks ++ vs.flatMap Cell.line) :
    (i.readInts vs.length).1 = vs.map .value ∧
    (i.readInts vs.length).2.rest = (if vs = [] then blanks else [10]) ∧
    (i.readInts vs.length).2.failure = i.failure := by
  induction vs generalizing i blanks with
  | nil => simpa [readInts] using whole
  | cons v vs ih =>
    obtain ⟨first, later⟩ := List.forall_mem_cons.mp fits
    rw [List.flatMap_cons] at whole
    obtain ⟨value, left, failure⟩ := readInt_of_line blank first whole
    have newline : [10] ⊆ blankBytes := by decide
    obtain ⟨values, rest, failure'⟩ := ih (i := i.readInt.2) later newline left
    rw [ite_self] at rest
    refine ⟨?_, ?_, failure'.trans failure⟩
    · rw [List.length_cons, readInts, value, values, List.map_cons]
    · rw [List.length_cons, readInts, rest]
      rfl

theorem readInt_of_blanks (blank : blanks ⊆ blankBytes) (whole : i.rest = blanks)
    (ending : i.failure = none) : i.readInt.1 = .exhausted := by
  let e : Entry := ⟨blanks, none, [], blank, by simp, by simp⟩
  have whole : i.rest = e.bytes ++ [] := by simp [whole, Entry.bytes, e]
  rw [readInt_of_ending whole (by simp) fun _ => ending]
  exact Entry.reading_eq_exhausted_iff.mpr ⟨rfl, rfl, rfl⟩

end Input

theorem Machine.dispatch_printInt {p : Program} {t : Token} {m : Machine}
    (kind : t.kind = .printInt) : m.dispatch p t = m.emit (Cell.line m.tape.value) := by
  simp only [dispatch, kind]
  rfl

/-- What is printed for some values reads back as these values. An `=` appends the line of the value
to an output that accepts it. From the lines of some values, one behind the other, the values are
read in order, the last newline is all that is left then, and after that the input is exhausted. -/
theorem Machine.printed_integers_read_back (vs : List Int) (fits : ∀ v ∈ vs, Cell.Fits v) :
    (∀ (p : Program) (t : Token) (m : Machine), t.kind = .printInt →
      m.output.writeRefusal? (Cell.line m.tape.value) = none →
      (m.dispatch p t).1 = .ok .next ∧
      (m.dispatch p t).2.output.written.toList =
        m.output.written.toList ++ Cell.line m.tape.value) ∧
    ∃ final, Input.readInts { rest := vs.flatMap Cell.line } vs.length = (vs.map .value, final) ∧
      (vs ≠ [] → final.rest = [10] ∧ final.consumed + 1 = (vs.flatMap Cell.line).length) ∧
      final.readInt.1 = .exhausted := by
  constructor
  · intro p t m kind room
    rw [dispatch_printInt kind]
    simp only [emit, room, true_and]
    exact Output.written_write room
  · let i : Input := { rest := vs.flatMap Cell.line }
    have whole : i.rest = [] ++ vs.flatMap Cell.line := rfl
    obtain ⟨values, left, failure⟩ := Input.readInts_of_lines fits (by simp) whole
    refine ⟨(i.readInts vs.length).2, Prod.ext values rfl, ?_, ?_⟩
    · intro nonempty
      have total := i.total_readInts vs.length
      rw [if_neg nonempty] at left
      refine ⟨left, ?_⟩
      simpa [left, i] using total
    · have blank : (if vs = [] then [] else [10]) ⊆ blankBytes := by
        split <;> decide
      exact Input.readInt_of_blanks blank left failure

theorem Machine.printed_integers_read_back_bounds :
    (∀ v ∈ [0, -2147483648, 2147483647], Cell.Fits v) ∧
    ∃ final, Input.readInts { rest := Text.utf8 "0\n-2147483648\n2147483647\n" } 3 =
        ([.value 0, .value (-2147483648), .value 2147483647], final) ∧
      final.rest = [10] ∧ final.consumed = 24 ∧ final.readInt.1 = .exhausted := by
  have fits : ∀ v ∈ [0, -2147483648, 2147483647], Cell.Fits v := by decide
  have lines : [0, -2147483648, 2147483647].flatMap Cell.line =
      Text.utf8 "0\n-2147483648\n2147483647\n" := by decide +kernel
  obtain ⟨-, final, values, left, exhausted⟩ := printed_integers_read_back _ fits
  obtain ⟨newline, consumed⟩ := left (by decide)
  rw [lines] at values consumed
  have length : (Text.utf8 "0\n-2147483648\n2147483647\n").length = 25 := by decide +kernel
  exact ⟨fits, final, values, newline, by omega, exhausted⟩

end HungryTape
