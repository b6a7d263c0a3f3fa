import HungryTape.Invocation
import HungryTape.Proofs.Numerals

/-!
The items of a command line. A value belongs to the option before it and behind `--` every text is
a file name, so an argument means little by itself. Cut into items, a command line is read one item
after the other, and each of them changes the settings or names a file. Every command line is a row
of items as far as it is read, so what holds for all rows holds for all that is accepted.
-/

namespace HungryTape

/-- A number as an argument may give it: digits, leading zeros included, and perhaps a plus sign
before them. -/
structure Figure where
  plus : Bool := false
  digits : List Char
  nonempty : digits ≠ []
  digital : ∀ c ∈ digits, c.isDigit = true
  bounded : Numeral.placeValue (digits.map Numeral.charDigit) < 18446744073709551616

namespace Figure

def text (f : Figure) : String :=
  String.ofList (if f.plus then '+' :: f.digits else f.digits)

def value (f : Figure) : Nat :=
  Numeral.placeValue (f.digits.map Numeral.charDigit)

def ofNat (n : Nat) (bounded : n < 18446744073709551616) : Figure where
  digits := (Numeral.decimal n).toList
  nonempty := Numeral.toList_decimal_ne_nil n
  digital _ := Numeral.isDigit_of_mem_decimal
  bounded := by
    rw [Numeral.placeValue_decimal]
    exact bounded

@[simp]
theorem text_ofNat {n : Nat} (bounded : n < 18446744073709551616) :
    (ofNat n bounded).text = Numeral.decimal n := by
  simp [text, ofNat]

@[simp]
theorem value_ofNat {n : Nat} (bounded : n < 18446744073709551616) :
    (ofNat n bounded).value = n :=
  Numeral.placeValue_decimal n

theorem natural?_text (f : Figure) : natural? f.text = some f.value := by
  have worth : Numeral.ofDecimal? f.digits = some f.value :=
    Numeral.ofDecimal?_eq_some_iff.mpr ⟨f.nonempty, f.digital, rfl⟩
  have written : f.text.toList = f.digits ∨ f.text.toList = '+' :: f.digits := by
    cases plus : f.plus <;> simp [text, plus]
  have read : Numeral.unsigned? f.text.toList = some f.value :=
    Numeral.unsigned?_eq_some_iff.mpr ⟨f.digits, written, worth⟩
  have bounded : f.value < 18446744073709551616 := f.bounded
  simp [natural?, read, Option.filter_some, bounded]

/-- Every text that is read as a number is one of its spellings. -/
theorem exists_of_natural? {text : String} {n : Nat} (h : natural? text = some n) :
    ∃ f : Figure, f.text = text ∧ f.value = n := by
  obtain ⟨read, bounded⟩ := Option.filter_eq_some_iff.mp h
  obtain ⟨digits, written, worth⟩ := Numeral.unsigned?_eq_some_iff.mp read
  obtain ⟨nonempty, digital, rfl⟩ := Numeral.ofDecimal?_eq_some_iff.mp worth
  have bounded := of_decide_eq_true bounded
  rcases written with plain | signed
  · exact ⟨⟨false, digits, nonempty, digital, bounded⟩, by simp [Figure.text, ← plain], rfl⟩
  · exact ⟨⟨true, digits, nonempty, digital, bounded⟩, by simp [Figure.text, ← signed], rfl⟩

theorem positive?_text {f : Figure} (positive : 0 < f.value) : positive? f.text = some f.value := by
  simp [positive?, natural?_text, positive]

theorem limit?_text {f : Figure} (positive : 0 < f.value) :
    limit? f.text = some (some f.value) := by
  have word : f.text ≠ "none" := by
    intro none
    have read := natural?_text f
    rw [none] at read
    cases read
  simp [limit?, word, positive?_text positive]

theorem exists_of_positive? {text : String} {n : Nat} (h : positive? text = some n) :
    ∃ f : Figure, f.text = text ∧ f.value = n ∧ 0 < f.value := by
  obtain ⟨read, positive⟩ := Option.filter_eq_some_iff.mp h
  obtain ⟨f, rfl, rfl⟩ := exists_of_natural? read
  exact ⟨f, rfl, rfl, by simpa using positive⟩

/-- A limit is the word or a number above zero. -/
theorem exists_of_limit? {text : String} {limit : Option Nat} (h : limit? text = some limit) :
    text = "none" ∧ limit = none ∨
      ∃ f : Figure, f.text = text ∧ some f.value = limit ∧ 0 < f.value := by
  unfold limit? at h
  split at h
  · rename_i word
    exact .inl ⟨word, (Option.some.inj h).symm⟩
  · obtain ⟨n, read, rfl⟩ := Option.map_eq_some_iff.mp h
    obtain ⟨f, spelled, worth, positive⟩ := exists_of_positive? read
    exact .inr ⟨f, spelled, congrArg some worth, positive⟩

end Figure

/-- A flag of so many letters `v`. -/
def Argument.flag (steps : Nat) : String :=
  String.ofList ('-' :: List.replicate steps 'v')

namespace Argument

theorem ofText_flag {steps : Nat} (given : 0 < steps) : ofText (flag steps) = louder steps := by
  obtain ⟨more, rfl⟩ := Nat.exists_eq_add_of_lt given
  have written : (flag (0 + more + 1)).toList = '-' :: 'v' :: List.replicate more 'v' := by
    simp [flag, List.replicate_succ]
  generalize flag (0 + more + 1) = text at written
  unfold ofText
  simp only [← String.toList_inj, written]
  simp

theorem ofText_name {name : String} (plain : name.toList.head? = some '-' → name = "-") :
    ofText name = file := by
  by_cases dash : name.toList.head? = some '-'
  · rw [plain dash]
    rfl
  · unfold ofText
    simp only [← String.toList_inj]
    cases letters : name.toList with
    | nil => simp
    | cons c rest =>
      have other : c ≠ '-' := by simpa [letters] using dash
      simp [other]

/-- How the text of an argument looks. -/
def Looks : Argument → String → Prop
  | help, text => text = "-h" ∨ text = "--help"
  | tokens, text => text = "--tokens"
  | tapeSize, text => text = "--tape-size"
  | stomach, text => text = "--stomach"
  | sourceLimit, text => text = "--source-limit"
  | filesOnly, text => text = "--"
  | louder steps, text => 0 < steps ∧ text = flag steps
  | unknown, text => text.toList.head? = some '-'
  | file, text => text.toList.head? = some '-' → text = "-"

theorem looks_of_ofText {text : String} {a : Argument} (h : ofText text = a) : a.Looks text := by
  subst h
  unfold ofText
  -- the texts that are compared as a whole
  iterate 6
    split
    · assumption
  split
  · rename_i c rest letters
    split
    · rename_i same
      have same : c :: rest = List.replicate (c :: rest).length 'v' :=
        List.eq_replicate_of_mem (by simpa using same)
      refine ⟨by simp, ?_⟩
      rw [flag, ← same, ← letters, String.ofList_toList]
    · simp [Looks, letters]
  · rename_i short
    intro dash
    obtain ⟨rest, letters⟩ := List.head?_eq_some_iff.mp dash
    cases rest with
    | nil => exact String.toList_inj.mp letters
    | cons c rest => exact absurd letters (short c rest)

end Argument

/-- A piece of a command line that is read at once: an argument, or an option and its value. -/
inductive Item where
  | file (name : String) (plain : name.toList.head? = some '-' → name = "-")
  | tokens
  | louder (steps : Nat) (given : 0 < steps)
  | tapeSize (size : Figure) (positive : 0 < size.value)
  | stomach (cell : Figure)
  | sourceLimit (limit : Option Figure) (positive : ∀ f ∈ limit, 0 < f.value)

namespace Item

def texts : Item → List String
  | file name _ => [name]
  | tokens => ["--tokens"]
  | louder steps _ => [Argument.flag steps]
  | tapeSize size _ => ["--tape-size", size.text]
  | stomach cell => ["--stomach", cell.text]
  | sourceLimit none _ => ["--source-limit", "none"]
  | sourceLimit (some limit) _ => ["--source-limit", limit.text]

def name? : Item → Option String
  | file name _ => some name
  | _ => none

end Item

/-- The settings behind an item. -/
def Settings.enter (s : Settings) : Item → Settings
  | .file _ _ => s
  | .tokens => { s with listTokens := true }
  | .louder steps _ => s.louder steps
  | .tapeSize size _ => { s with tapeSize := size.value }
  | .stomach cell => { s with stomach := cell.value }
  | .sourceLimit limit _ => { s with sourceLimit := limit.map Figure.value }

namespace Invocation

/-- The arguments of a command line. Behind `--`, if there is one, every text is a name. -/
def arguments (items : List Item) (names : Option (List String)) : List String :=
  items.flatMap Item.texts ++
    match names with
    | none => []
    | some names => "--" :: names

/-- One step of the reader over items. -/
theorem parseFrom_item (s : Settings) (files : List String) (i : Item) (rest : List String) :
    parseFrom s files (i.texts ++ rest) = parseFrom (s.enter i) (files ++ i.name?.toList) rest := by
  have tapeSize : Argument.ofText "--tape-size" = .tapeSize := rfl
  have stomach : Argument.ofText "--stomach" = .stomach := rfl
  have sourceLimit : Argument.ofText "--source-limit" = .sourceLimit := rfl
  cases i with
  | file name plain =>
    rw [Item.texts, List.singleton_append, parseFrom.eq_def]
    simp only [Argument.ofText_name plain]
    rfl
  | tokens =>
    rw [Item.texts, List.singleton_append, parseFrom.eq_def]
    simp only [Item.name?, Option.toList_none, List.append_nil]
    rfl
  | louder steps given =>
    rw [Item.texts, List.singleton_append, parseFrom.eq_def]
    simp only [Argument.ofText_flag given, Item.name?, Option.toList_none, List.append_nil]
    rfl
  | tapeSize size positive =>
    have value := Figure.positive?_text positive
    simp [Item.texts, Item.name?, parseFrom, tapeSize, value, Settings.enter]
  | stomach cell =>
    simp [Item.texts, Item.name?, parseFrom, stomach, Figure.natural?_text, Settings.enter]
  | sourceLimit limit positive =>
    cases limit with
    | none => simp [Item.texts, Item.name?, parseFrom, sourceLimit, limit?, Settings.enter]
    | some limit =>
      have value := Figure.limit?_text (positive limit rfl)
      simp [Item.texts, Item.name?, parseFrom, sourceLimit, value, Settings.enter]

theorem parseFrom_items (s : Settings) (files : List String) (items : List Item)
    (rest : List String) :
    parseFrom s files (items.flatMap Item.texts ++ rest) =
      parseFrom (items.foldl Settings.enter s) (files ++ items.filterMap Item.name?) rest := by
  induction items generalizing s files with
  | nil => simp
  | cons i items ih =>
    rw [List.flatMap_cons, List.append_assoc, parseFrom_item, ih, List.foldl_cons]
    cases named : i.name? <;> simp [named]

theorem parse_arguments (items : List Item) (names : Option (List String)) :
    parse (arguments items names) =
      finish (items.foldl Settings.enter {}) (items.filterMap Item.name? ++ names.getD []) := by
  unfold parse arguments
  rw [parseFrom_items]
  cases names with
  | none => simp [parseFrom]
  | some names =>
    rw [parseFrom.eq_def]
    rfl

/-- Answers that the text of a single argument decides. -/
inductive ByArgument : Except UsageError Invocation → Prop where
  | help : ByArgument (.ok help)
  | missingValue (flag : String) : ByArgument (.error (.missingValue flag))
  | invalidNumber (flag value : String) : ByArgument (.error (.invalidNumber flag value))
  | unknownFlag (flag : String) : ByArgument (.error (.unknownFlag flag))

/-- Every command line is a row of items, unless one of its arguments decides alone. -/
theorem exists_items (s : Settings) (files args : List String) :
    (∃ items names, args = arguments items names) ∨ ByArgument (parseFrom s files args) := by
  -- an item is put in front of the items of the rest
  have next (i : Item) {rest : List String} {answer : Except UsageError Invocation}
      (ih : (∃ items names, rest = arguments items names) ∨ ByArgument answer) :
      (∃ items names, i.texts ++ rest = arguments items names) ∨ ByArgument answer := by
    rcases ih with ⟨items, names, rfl⟩ | decided
    · exact .inl ⟨i :: items, names, by simp [arguments]⟩
    · exact .inr decided
  fun_induction parseFrom s files args with
  | case1 s files => exact .inl ⟨[], none, rfl⟩
  | case2 => exact .inr .help
  | case6 => exact .inr (.unknownFlag _)
  | case8 | case11 | case14 => exact .inr (.missingValue _)
  | case10 | case13 | case16 => exact .inr (.invalidNumber _ _)
  | case5 s files arg rest read =>
    have looks : arg = "--" := Argument.looks_of_ofText read
    exact .inl ⟨[], some rest, congrArg (· :: rest) looks⟩
  | case3 s files arg rest read ih =>
    have looks : arg = "--tokens" := Argument.looks_of_ofText read
    rw [looks]
    exact next .tokens ih
  | case4 s files arg rest steps read ih =>
    have looks : 0 < steps ∧ arg = Argument.flag steps := Argument.looks_of_ofText read
    rw [looks.2]
    exact next (.louder steps looks.1) ih
  | case7 s files arg rest read ih =>
    have looks : arg.toList.head? = some '-' → arg = "-" := Argument.looks_of_ofText read
    exact next (.file arg looks) ih
  | case9 s files arg read value rest size given ih =>
    have looks : arg = "--tape-size" := Argument.looks_of_ofText read
    obtain ⟨f, rfl, rfl, positive⟩ := Figure.exists_of_positive? given
    rw [looks]
    exact next (.tapeSize f positive) ih
  | case12 s files arg read value rest cell given ih =>
    have looks : arg = "--stomach" := Argument.looks_of_ofText read
    obtain ⟨f, rfl, rfl⟩ := Figure.exists_of_natural? given
    rw [looks]
    exact next (.stomach f) ih
  | case15 s files arg read value rest limit given ih =>
    have looks : arg = "--source-limit" := Argument.looks_of_ofText read
    rw [looks]
    rcases Figure.exists_of_limit? given with ⟨rfl, rfl⟩ | ⟨f, rfl, rfl, positive⟩
    · exact next (.sourceLimit none (by simp)) ih
    · exact next (.sourceLimit (some f) (by simpa using positive)) ih

theorem items_of_run {args files : List String} {s : Settings}
    (accepted : parse args = .ok (run s files)) : ∃ items names, args = arguments items names := by
  rcases exists_items {} [] args with cut | decided
  · exact cut
  · rw [parse] at accepted
    rw [accepted] at decided
    cases decided

end Invocation

end HungryTape
