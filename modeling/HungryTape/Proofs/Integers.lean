import HungryTape.Proofs.Numerals
import HungryTape.Proofs.Reading
import HungryTape.Proofs.Words

namespace HungryTape

/-- Tab, line feed, form feed, carriage return and space. -/
def blankBytes : List UInt8 :=
  [9, 10, 12, 13, 32]

/-- The beginning of an input as far as it may belong to an integer. Each part may be missing. -/
structure Entry where
  blanks : List UInt8
  sign : Option UInt8
  digits : List UInt8
  blank : blanks ⊆ blankBytes
  /-- Plus and minus -/
  signed : ∀ b ∈ sign, b ∈ [43, 45]
  digital : ∀ b ∈ digits, 48 ≤ b ∧ b ≤ 57

theorem isBlank_iff {b : UInt8} : isBlank b = true ↔ b ∈ blankBytes := by
  simp only [isBlank, blankBytes, Bool.or_eq_true, decide_eq_true_eq, List.mem_cons,
    List.not_mem_nil, or_false]
  grind

theorem isSignByte_iff {b : UInt8} : isSignByte b = true ↔ b ∈ [43, 45] := by
  simp [isSignByte]

theorem isDigitByte_iff {b : UInt8} : isDigitByte b = true ↔ 48 ≤ b ∧ b ≤ 57 := by
  simp [isDigitByte]

/-- The three classes of bytes have nothing in common. -/
theorem only_blank {b : UInt8} (h : isBlank b = true) :
    isSignByte b = false ∧ isDigitByte b = false := by
  have blanks : b = 9 ∨ b = 10 ∨ b = 12 ∨ b = 13 ∨ b = 32 := by
    simpa [blankBytes] using isBlank_iff.mp h
  rcases blanks with rfl | rfl | rfl | rfl | rfl <;> decide

theorem only_sign {b : UInt8} (h : isSignByte b = true) :
    isBlank b = false ∧ isDigitByte b = false := by
  have signs : b = 43 ∨ b = 45 := by simpa using isSignByte_iff.mp h
  rcases signs with rfl | rfl <;> decide

theorem only_digit {b : UInt8} (h : isDigitByte b = true) :
    isBlank b = false ∧ isSignByte b = false := by
  constructor
  · cases blank : isBlank b with
    | false => rfl
    | true => cases h.symm.trans (only_blank blank).2
  · cases sign : isSignByte b with
    | false => rfl
    | true => cases h.symm.trans (only_sign sign).2

namespace Entry

def bytes (e : Entry) : List UInt8 :=
  e.blanks ++ (e.sign.toList ++ e.digits)

/-- The number that the digits give by their places, below zero if the sign is a minus. -/
def worth (e : Entry) : Int :=
  if e.sign = some 45 then -Numeral.placeValue (e.digits.map fun b => b.toNat - 48)
  else Numeral.placeValue (e.digits.map fun b => b.toNat - 48)

/-- The byte does not belong to the entry if it stands behind it. -/
structure Ends (e : Entry) (b : UInt8) : Prop where
  digit : isDigitByte b = false
  other : e.sign = none → e.digits = [] → isBlank b = false ∧ isSignByte b = false

theorem isBlank_of_mem {e : Entry} {b : UInt8} (h : b ∈ e.blanks) : isBlank b = true :=
  isBlank_iff.mpr (e.blank h)

theorem isSignByte_of_mem {e : Entry} {b : UInt8} (h : b ∈ e.sign) : isSignByte b = true :=
  isSignByte_iff.mpr (e.signed b h)

theorem isDigitByte_of_mem {e : Entry} {b : UInt8} (h : b ∈ e.digits) : isDigitByte b = true :=
  isDigitByte_iff.mpr (e.digital b h)

theorem class_of_mem {e : Entry} {b : UInt8} (h : b ∈ e.bytes) :
    isBlank b = true ∨ isSignByte b = true ∨ isDigitByte b = true := by
  rcases List.mem_append.mp h with blank | behind
  · exact .inl (isBlank_of_mem blank)
  · rcases List.mem_append.mp behind with sign | digit
    · exact .inr (.inl (isSignByte_of_mem (Option.mem_toList.mp sign)))
    · exact .inr (.inr (isDigitByte_of_mem digit))

/-- Behind a byte that is not blank there are only digits. -/
theorem pairwise_bytes (e : Entry) :
    e.bytes.Pairwise fun a b => isBlank a = true ∨ isDigitByte b = true := by
  rw [bytes, List.pairwise_append, List.pairwise_append]
  refine ⟨?_, ⟨?_, ?_, ?_⟩, ?_⟩
  · exact List.pairwise_of_forall_mem_list fun a h _ _ => .inl (isBlank_of_mem h)
  · cases e.sign <;> simp
  · exact List.pairwise_of_forall_mem_list fun _ _ b h => .inr (isDigitByte_of_mem h)
  · intro _ _ b h
    exact .inr (isDigitByte_of_mem h)
  · intro a h _ _
    exact .inl (isBlank_of_mem h)

/-- An entry that goes on behind another one does not leave it as it is. -/
theorem not_ends_of_longer {e e' : Entry} {b : UInt8} {more : List UInt8}
    (longer : e'.bytes = e.bytes ++ b :: more) : ¬ e.Ends b := by
  intro ends
  have pairs := e'.pairwise_bytes
  rw [longer, List.pairwise_append] at pairs
  have blank : ∀ a ∈ e.bytes, isBlank a = true := by
    intro a mem
    have pair := pairs.2.2 a mem b List.mem_cons_self
    simpa [ends.digit] using pair
  have unsigned : e.sign = none := by
    apply Option.eq_none_iff_forall_not_mem.mpr
    intro a mem
    have found := blank a (by simp [bytes, Option.mem_toList.mpr mem])
    cases found.symm.trans (only_sign (isSignByte_of_mem mem)).1
  have empty : e.digits = [] := by
    apply List.eq_nil_iff_forall_not_mem.mpr
    intro a mem
    have found := blank a (by simp [bytes, mem])
    cases found.symm.trans (only_digit (isDigitByte_of_mem mem)).1
  obtain ⟨unblank, unsign⟩ := ends.other unsigned empty
  have known : b ∈ e'.bytes := by simp [longer]
  simpa [unblank, unsign, ends.digit] using class_of_mem known

theorem longest {e e' : Entry} {rest : List UInt8} (ends : ∀ b ∈ rest.head?, e.Ends b)
    (initial : e'.bytes <+: e.bytes ++ rest) : e'.bytes.length ≤ e.bytes.length := by
  by_contra longer
  obtain ⟨more, split⟩ : e.bytes <+: e'.bytes :=
    List.prefix_of_prefix_length_le (List.prefix_append _ _) initial (by omega)
  rw [← split] at initial
  have initial : more <+: rest := (List.prefix_append_right_inj _).mp initial
  cases more with
  | nil => simp [← split] at longer
  | cons b more =>
    obtain ⟨after, whole⟩ := initial
    have first : b ∈ rest.head? := by simp [← whole]
    exact not_ends_of_longer split.symm (ends b first)

/-- Every input starts with an entry that the byte behind it ends. -/
theorem exists_first (bytes : List UInt8) :
    ∃ (e : Entry) (rest : List UInt8), bytes = e.bytes ++ rest ∧ ∀ b ∈ rest.head?, e.Ends b := by
  have blank : bytes.takeWhile isBlank ⊆ blankBytes := by
    intro b h
    exact isBlank_iff.mp (List.all_eq_true.mp List.all_takeWhile b h)
  have digital (text : List UInt8) : ∀ b ∈ text.takeWhile isDigitByte, 48 ≤ b ∧ b ≤ 57 := by
    intro b h
    exact isDigitByte_iff.mp (List.all_eq_true.mp List.all_takeWhile b h)
  have split : bytes.takeWhile isBlank ++ bytes.dropWhile isBlank = bytes :=
    List.takeWhile_append_dropWhile
  cases behind : bytes.dropWhile isBlank with
  | nil =>
    refine ⟨⟨_, none, [], blank, by simp, by simp⟩, [], ?_, by simp⟩
    simpa [Entry.bytes, behind] using split.symm
  | cons s more =>
    have first : s ∈ (bytes.dropWhile isBlank).head? := by simp [behind]
    have unblank : isBlank s = false := not_of_head?_dropWhile first
    by_cases sign : isSignByte s = true
    · refine ⟨⟨_, some s, _, blank, ?_, digital more⟩, more.dropWhile isDigitByte, ?_, ?_⟩
      · rintro _ ⟨⟩
        exact isSignByte_iff.mp sign
      · simpa [Entry.bytes, behind, List.takeWhile_append_dropWhile] using split.symm
      · intro b first
        refine ⟨not_of_head?_dropWhile first, ?_⟩
        intro unsigned
        cases unsigned
    · refine ⟨⟨_, none, _, blank, by simp, digital (s :: more)⟩,
        (s :: more).dropWhile isDigitByte, ?_, ?_⟩
      · rw [behind] at split
        simp only [Entry.bytes, Option.toList_none, List.nil_append, List.append_assoc,
          List.takeWhile_append_dropWhile]
        exact split.symm
      · intro b first
        refine ⟨not_of_head?_dropWhile first, ?_⟩
        intro _ empty
        have undigit : isDigitByte s = false := by simpa [List.takeWhile_cons] using empty
        obtain rfl : s = b := by simpa [List.dropWhile_cons, undigit] using first
        exact ⟨unblank, by simpa using sign⟩

section

variable {e : Entry} {rest : List UInt8}

/-- The byte behind the blanks is not blank, and without a sign of the entry it is no sign. -/
theorem head_behind_blanks {b : UInt8} (ends : ∀ b ∈ rest.head?, e.Ends b)
    (first : b ∈ (e.sign.toList ++ e.digits ++ rest).head?) :
    isBlank b = false ∧ (e.sign = none → isSignByte b = false) := by
  cases sign : e.sign with
  | some s =>
    obtain rfl : s = b := by simpa [sign] using first
    exact ⟨(only_sign (isSignByte_of_mem sign)).1, by simp⟩
  | none =>
    cases digits : e.digits with
    | cons d more =>
      obtain rfl : d = b := by simpa [sign, digits] using first
      have mem : d ∈ e.digits := by simp [digits]
      obtain ⟨unblank, unsign⟩ := only_digit (isDigitByte_of_mem mem)
      exact ⟨unblank, fun _ => unsign⟩
    | nil =>
      have first : b ∈ rest.head? := by simpa [sign, digits] using first
      obtain ⟨unblank, unsign⟩ := (ends b first).other sign digits
      exact ⟨unblank, fun _ => unsign⟩

theorem takeWhile_blanks (ends : ∀ b ∈ rest.head?, e.Ends b) :
    (e.bytes ++ rest).takeWhile isBlank = e.blanks := by
  rw [bytes, List.append_assoc]
  apply takeWhile_append_of_stop
  · intro b mem
    exact isBlank_of_mem mem
  · intro b first
    exact (head_behind_blanks ends first).1

theorem sign_eq (ends : ∀ b ∈ rest.head?, e.Ends b) :
    Input.sign (e.sign.toList ++ e.digits ++ rest) = e.sign.toList := by
  cases sign : e.sign with
  | some s => simp [Input.sign, isSignByte_of_mem sign]
  | none =>
    cases text : e.digits ++ rest with
    | nil => simp [Input.sign, text]
    | cons b more =>
      have unsign := (head_behind_blanks (b := b) ends (by simp [sign, text])).2 sign
      simp [Input.sign, text, unsign]

theorem digits_eq (ends : ∀ b ∈ rest.head?, e.Ends b) :
    Input.digits (e.sign.toList ++ e.digits ++ rest) = e.digits := by
  rw [Input.digits, sign_eq ends, List.append_assoc, List.drop_left]
  apply takeWhile_append_of_stop
  · intro b mem
    exact isDigitByte_of_mem mem
  · intro b first
    exact (ends b first).digit

end

/-- What an entry says if `next` stands behind it. -/
def reading (e : Entry) (next : Option UInt8) : Reading :=
  Input.interpret (e.sign.toList.map Text.latin1Char) (e.digits.map Text.latin1Char) next

theorem magnitude_eq (digits : List UInt8) :
    Numeral.ofDecimal (digits.map Text.latin1Char) =
      Numeral.placeValue (digits.map fun b => b.toNat - 48) := by
  rw [Numeral.ofDecimal, Numeral.value_eq_placeValue, List.map_map]
  simp only [Function.comp_def, Numeral.charDigit, Text.toNat_latin1Char]

theorem minus_iff (e : Entry) : e.sign.toList.map Text.latin1Char = ['-'] ↔ e.sign = some 45 := by
  cases sign : e.sign with
  | none => simp
  | some s =>
    have signs : s = 43 ∨ s = 45 := by simpa using e.signed s sign
    rcases signs with rfl | rfl <;> decide

theorem reading_of_digits {e : Entry} (some_digit : e.digits ≠ []) (next : Option UInt8) :
    e.reading next =
      if Cell.Fits e.worth then .value e.worth
      else .invalid (.tooLarge (String.ofList
        (e.sign.toList.map Text.latin1Char ++ e.digits.map Text.latin1Char))) := by
  obtain ⟨d, more, digits⟩ := List.exists_cons_of_ne_nil some_digit
  have magnitude := magnitude_eq e.digits
  simp only [reading, Input.interpret, digits, List.map_cons] at magnitude ⊢
  simp only [Input.integer, magnitude, minus_iff, worth, digits, List.map_cons]

theorem reading_of_no_digits {e : Entry} (empty : e.digits = []) (next : Option UInt8) :
    e.reading next =
      match e.sign, next with
      | some s, _ => .invalid (.noDigits (Text.latin1Char s))
      | none, some b => .invalid (.notAnInteger (Text.latin1Char b))
      | none, none => .exhausted := by
  unfold reading
  rw [empty]
  cases e.sign <;> cases next <;> rfl

theorem reading_eq_value_iff {e : Entry} {next : Option UInt8} {v : Int} :
    e.reading next = .value v ↔ e.digits ≠ [] ∧ Cell.Fits e.worth ∧ v = e.worth := by
  by_cases digits : e.digits = []
  · rw [reading_of_no_digits digits]
    split <;> simp [digits]
  · rw [reading_of_digits digits]
    split
    · rename_i fits
      simp [digits, fits, eq_comm]
    · rename_i unfit
      simp [unfit]

theorem reading_eq_exhausted_iff {e : Entry} {next : Option UInt8} :
    e.reading next = .exhausted ↔ e.sign = none ∧ e.digits = [] ∧ next = none := by
  by_cases digits : e.digits = []
  · rw [reading_of_no_digits digits]
    split <;> simp [*]
  · rw [reading_of_digits digits]
    split <;> simp [digits]

theorem reading_eq_invalid_iff {e : Entry} {next : Option UInt8} :
    (∃ defect, e.reading next = .invalid defect) ↔
      e.sign = none ∧ e.digits = [] ∧ next ≠ none ∨ e.sign ≠ none ∧ e.digits = [] ∨
        e.digits ≠ [] ∧ ¬ Cell.Fits e.worth := by
  by_cases digits : e.digits = []
  · rw [reading_of_no_digits digits]
    split <;> simp [*]
  · rw [reading_of_digits digits]
    split <;> simp [*]

theorem reading_ne_failed (e : Entry) (next : Option UInt8) (message : String) :
    e.reading next ≠ .failed message := by
  by_cases digits : e.digits = []
  · rw [reading_of_no_digits digits]
    split <;> simp
  · rw [reading_of_digits digits]
    split <;> simp

end Entry

namespace Input

variable {i : Input} {e : Entry} {rest : List UInt8}

theorem skipBlanks_of_entry (whole : i.rest = e.bytes ++ rest) (ends : ∀ b ∈ rest.head?, e.Ends b) :
    i.skipBlanks.rest = e.sign.toList ++ e.digits ++ rest := by
  rw [skipBlanks, skip, whole, Entry.takeWhile_blanks ends, Entry.bytes, List.append_assoc,
    List.drop_left]

theorem skipNumeral_of_entry (whole : i.rest = e.bytes ++ rest)
    (ends : ∀ b ∈ rest.head?, e.Ends b) :
    i.skipBlanks.skipNumeral = { i with rest, consumed := i.consumed + e.bytes.length } := by
  have behind := skipBlanks_of_entry whole ends
  rw [skipNumeral, behind, Entry.sign_eq ends, Entry.digits_eq ends, skipBlanks, skip_skip, whole,
    Entry.takeWhile_blanks ends]
  have length : e.blanks.length + (e.sign.toList.length + e.digits.length) = e.bytes.length := by
    simp [Entry.bytes]
  rw [length, skip, whole]
  simp

/-- What is read is decided by the entry that the input starts with and by what ends it. -/
theorem readInt_of_entry (whole : i.rest = e.bytes ++ rest) (ends : ∀ b ∈ rest.head?, e.Ends b) :
    i.readInt = ((match rest, i.failure with
      | [], some message => .failed message
      | rest, _ => e.reading rest.head?),
      { i with rest, consumed := i.consumed + e.bytes.length }) := by
  rw [readInt_eq, skipNumeral_of_entry whole ends, skipBlanks_of_entry whole ends,
    Entry.sign_eq ends, Entry.digits_eq ends]
  cases rest <;> cases i.failure <;> rfl

theorem readInt_of_ending (whole : i.rest = e.bytes ++ rest) (ends : ∀ b ∈ rest.head?, e.Ends b)
    (ending : rest = [] → i.failure = none) : i.readInt.1 = e.reading rest.head? := by
  rw [readInt_of_entry whole ends]
  cases rest with
  | nil => simp [ending rfl]
  | cons b rest => rfl

theorem readInt_eq_failed_iff (whole : i.rest = e.bytes ++ rest)
    (ends : ∀ b ∈ rest.head?, e.Ends b) {message : String} :
    i.readInt.1 = .failed message ↔ rest = [] ∧ i.failure = some message := by
  by_cases ending : rest = [] → i.failure = none
  · rw [readInt_of_ending whole ends ending]
    constructor
    · intro failed
      exact absurd failed (e.reading_ne_failed _ _)
    · rintro ⟨empty, failure⟩
      cases (ending empty).symm.trans failure
  · obtain ⟨rfl, failure⟩ := Classical.not_imp.mp ending
    obtain ⟨message', failure⟩ := Option.ne_none_iff_exists'.mp failure
    rw [readInt_of_entry whole ends]
    simp [failure]

/-- Reading an integer is reading the longest entry that the input starts with. It takes the bytes
of the entry and no others. It fails if the input fails right behind them. Otherwise it gives a
value if and only if there is a digit and a cell can hold what the entry is worth, it finds the
input exhausted if and only if there is no sign, no digit and no other byte, and in all other cases
the input is invalid. -/
theorem readInt_by_longest_entry (i : Input) :
    ∃ (e : Entry) (rest : List UInt8),
      i.rest = e.bytes ++ rest ∧
      (∀ e' : Entry, e'.bytes <+: i.rest → e'.bytes.length ≤ e.bytes.length) ∧
      i.readInt.2 = { i with rest, consumed := i.consumed + e.bytes.length } ∧
      (∀ message, i.readInt.1 = .failed message ↔ rest = [] ∧ i.failure = some message) ∧
      ((rest = [] → i.failure = none) →
        (∀ v, i.readInt.1 = .value v ↔ e.digits ≠ [] ∧ Cell.Fits e.worth ∧ v = e.worth) ∧
        (i.readInt.1 = .exhausted ↔ e.sign = none ∧ e.digits = [] ∧ rest = []) ∧
        ((∃ defect, i.readInt.1 = .invalid defect) ↔
          e.sign = none ∧ e.digits = [] ∧ rest ≠ [] ∨ e.sign ≠ none ∧ e.digits = [] ∨
            e.digits ≠ [] ∧ ¬ Cell.Fits e.worth)) := by
  obtain ⟨e, rest, whole, ends⟩ := Entry.exists_first i.rest
  refine ⟨e, rest, whole, ?_, ?_, ?_, ?_⟩
  · intro e' initial
    rw [whole] at initial
    exact Entry.longest ends initial
  · rw [readInt_of_entry whole ends]
  · intro message
    exact readInt_eq_failed_iff whole ends
  · intro ending
    have none_iff : rest.head? = none ↔ rest = [] := List.head?_eq_none_iff
    rw [readInt_of_ending whole ends ending]
    refine ⟨?_, ?_, ?_⟩
    · intro v
      exact Entry.reading_eq_value_iff
    · rw [Entry.reading_eq_exhausted_iff, none_iff]
    · rw [Entry.reading_eq_invalid_iff, ne_eq, none_iff]

end Input

end HungryTape
