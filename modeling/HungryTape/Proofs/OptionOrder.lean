import HungryTape.Proofs.Verbosity

namespace HungryTape

/-- The options that have a value. -/
inductive Valued where
  | tapeSize
  | stomach
  | sourceLimit
deriving DecidableEq, Repr

namespace Item

def option? : Item → Option Valued
  | tapeSize _ _ => some .tapeSize
  | stomach _ => some .stomach
  | sourceLimit _ _ => some .sourceLimit
  | _ => none

def tapeSize? : Item → Option Nat
  | tapeSize size _ => some size.value
  | _ => none

def stomach? : Item → Option Nat
  | stomach cell => some cell.value
  | _ => none

def sourceLimit? : Item → Option (Option Nat)
  | sourceLimit limit _ => some (limit.map Figure.value)
  | _ => none

def listsTokens : Item → Bool
  | tokens => true
  | _ => false

theorem tapeSize?_eq_none_iff (i : Item) : i.tapeSize? = none ↔ i.option? ≠ some .tapeSize := by
  cases i <;> simp [tapeSize?, option?]

theorem stomach?_eq_none_iff (i : Item) : i.stomach? = none ↔ i.option? ≠ some .stomach := by
  cases i <;> simp [stomach?, option?]

theorem sourceLimit?_eq_none_iff (i : Item) :
    i.sourceLimit? = none ↔ i.option? ≠ some .sourceLimit := by
  cases i <;> simp [sourceLimit?, option?]

/-- An item that sets an option does nothing else. -/
theorem only_option {i : Item} {o : Valued} (sets : i.option? = some o) :
    i.name? = none ∧ i.listsTokens = false ∧ i.steps = 0 := by
  cases i with
  | file | tokens | louder => cases sets
  | tapeSize | stomach | sourceLimit => exact ⟨rfl, rfl, rfl⟩

section

variable {α : Type} {write : Item → Option α} {a b : Item} {o : Valued}

theorem filterMap_swap (apart : write a = none ∨ write b = none) (before after : List Item) :
    (before ++ a :: b :: after).filterMap write = (before ++ b :: a :: after).filterMap write := by
  rcases apart with none | none <;> simp [List.filterMap_cons, none]

theorem settings_swap (sets : ∀ i, write i = none ↔ i.option? ≠ some o)
    (apart : a.option? = some o → b.option? ≠ some o) (before after : List Item) :
    (before ++ a :: b :: after).filterMap write = (before ++ b :: a :: after).filterMap write := by
  apply filterMap_swap
  rw [sets, sets]
  exact Decidable.not_or_of_imp apart

/-- A setting is never the last one if the option is set again behind it. -/
theorem last_of_later (sets : ∀ i, write i = none ↔ i.option? ≠ some o)
    (same : a.option? = b.option?) {tail : List Item} (mem : b ∈ tail) (before : List Item) :
    ((before ++ a :: tail).filterMap write).getLast? =
      ((before ++ tail).filterMap write).getLast? := by
  cases first : write a with
  | none => simp [first]
  | some v =>
    have again : tail.filterMap write ≠ [] := by
      intro nothing
      have unset : write b = none := List.filterMap_eq_nil_iff.mp nothing b mem
      rw [sets, ← same, ← sets] at unset
      cases first.symm.trans unset
    rw [List.append_cons]
    simp only [List.filterMap_append, List.getLast?_append_of_ne_nil _ again]

end

end Item

namespace Settings

/-- The settings that a row of items comes to. Of several settings of one option the last one
counts, and without any the default. -/
def given (items : List Item) : Settings where
  tapeSize := (items.filterMap Item.tapeSize?).getLast?.getD defaultTapeSize
  sourceLimit := (items.filterMap Item.sourceLimit?).getLast?.getD (some defaultSourceLimit)
  stomach := (items.filterMap Item.stomach?).getLast?.getD defaultStomach
  listTokens := items.any Item.listsTokens
  verbosity := min 255 (items.map fun i => i.steps % 256).sum

/-- What each item may replace is in the end what the last such item makes of it. -/
theorem foldl_enter_last {α : Type} (setting : Settings → α) (write : Item → Option α)
    (enters : ∀ s i, setting (enter s i) = (write i).getD (setting s)) (s : Settings)
    (items : List Item) :
    setting (items.foldl enter s) = (items.filterMap write).getLast?.getD (setting s) := by
  induction items generalizing s with
  | nil => rfl
  | cons i items ih =>
    rw [List.foldl_cons, ih, enters]
    cases writes : write i with
    | none => rw [List.filterMap_cons_none writes, Option.getD_none]
    | some v =>
      rw [List.filterMap_cons_some writes, List.getLast?_cons]
      rfl

theorem listTokens_foldl (s : Settings) (items : List Item) :
    (items.foldl enter s).listTokens = (s.listTokens || items.any Item.listsTokens) := by
  induction items generalizing s with
  | nil => simp
  | cons i items ih =>
    rw [List.foldl_cons, ih, List.any_cons, ← Bool.or_assoc]
    congr 1
    cases i <;> simp [enter, Item.listsTokens, louder]

theorem foldl_enter_eq_given (items : List Item) : items.foldl enter {} = given items := by
  have tapeSize := foldl_enter_last tapeSize Item.tapeSize? (by rintro s ⟨⟩ <;> rfl) {} items
  have stomach := foldl_enter_last stomach Item.stomach? (by rintro s ⟨⟩ <;> rfl) {} items
  have sourceLimit :=
    foldl_enter_last sourceLimit Item.sourceLimit? (by rintro s ⟨⟩ <;> rfl) {} items
  have listTokens := listTokens_foldl {} items
  have verbosity := verbosity_foldl (s := {}) (Nat.zero_le 255) items
  rw [Bool.false_or] at listTokens
  rw [Nat.zero_add] at verbosity
  unfold given
  rw [← tapeSize, ← stomach, ← sourceLimit, ← listTokens, ← verbosity]

theorem given_swap {a b : Item} (apart : ∀ o, a.option? = some o → b.option? ≠ some o)
    (before after : List Item) :
    given (before ++ a :: b :: after) = given (before ++ b :: a :: after) := by
  unfold given
  rw [Item.settings_swap Item.tapeSize?_eq_none_iff (apart _),
    Item.settings_swap Item.stomach?_eq_none_iff (apart _),
    Item.settings_swap Item.sourceLimit?_eq_none_iff (apart _)]
  congr 1
  · simp [Bool.or_left_comm]
  · simp [Nat.add_left_comm]

theorem given_later {a b : Item} {o : Valued} (first : a.option? = some o)
    (later : b.option? = some o) {tail : List Item} (mem : b ∈ tail) (before : List Item) :
    given (before ++ a :: tail) = given (before ++ tail) := by
  have same : a.option? = b.option? := first.trans later.symm
  obtain ⟨-, listless, silent⟩ := Item.only_option first
  unfold given
  rw [Item.last_of_later Item.tapeSize?_eq_none_iff same mem,
    Item.last_of_later Item.stomach?_eq_none_iff same mem,
    Item.last_of_later Item.sourceLimit?_eq_none_iff same mem]
  congr 1
  · simp [listless]
  · simp [silent]

end Settings

namespace Invocation

/-- What a command line comes to when all of it has been read. -/
inductive Answers (s : Settings) (files : List String) : Except UsageError Invocation → Prop where
  | noFiles (fileless : files = []) : Answers s files (.error .noFiles)
  | stomachOffTape (asked : files ≠ []) (off : s.tapeSize ≤ s.stomach) :
      Answers s files (.error (.stomachOffTape s.stomach s.tapeSize))
  | accepted (asked : files ≠ []) (inside : s.stomach < s.tapeSize) :
      Answers s files (.ok (run s files))

theorem finish_answers (s : Settings) (files : List String) :
    Answers s files (finish s files) := by
  unfold finish
  split
  · rename_i fileless
    exact .noFiles (by simpa using fileless)
  · rename_i asked
    have asked : files ≠ [] := by simpa using asked
    split
    · rename_i inside
      exact .accepted asked inside
    · rename_i off
      exact .stomachOffTape asked (Nat.not_lt.mp off)

theorem parse_items (items : List Item) :
    parse (arguments items none) = finish (.given items) (items.filterMap Item.name?) := by
  rw [parse_arguments, Settings.foldl_enter_eq_given, Option.getD_none, List.append_nil]

/-- A command line without `--` is a row of items, unless one of its arguments decides alone. The
items are entered one after the other, and then a row without files is refused, and one whose
stomach is not on its tape, and every other one is accepted. The settings for this are those that
come last for each option. So neighbours can change places unless both are files or both set one
option, and a setting that comes again later can be left out. -/
theorem option_order_irrelevant :
    (∀ args, "--" ∉ args → (∃ items, args = arguments items none) ∨ ByArgument (parse args)) ∧
    (∀ items,
      parse (arguments items none) =
        finish (items.foldl Settings.enter {}) (items.filterMap Item.name?) ∧
      items.foldl Settings.enter {} = .given items ∧
      Answers (.given items) (items.filterMap Item.name?) (parse (arguments items none))) ∧
    (∀ before a b after, (a.name? = none ∨ b.name? = none) →
      (∀ o, a.option? = some o → b.option? ≠ some o) →
        parse (arguments (before ++ a :: b :: after) none) =
          parse (arguments (before ++ b :: a :: after) none)) ∧
    ∀ before a between b after o, a.option? = some o → b.option? = some o →
      parse (arguments (before ++ a :: (between ++ b :: after)) none) =
        parse (arguments (before ++ (between ++ b :: after)) none) := by
  refine ⟨?_, ?_, ?_, ?_⟩
  · intro args unmarked
    rcases exists_items {} [] args with ⟨items, names, rfl⟩ | decided
    · cases names with
      | none => exact .inl ⟨items, rfl⟩
      | some names => exact absurd (by simp [arguments]) unmarked
    · exact .inr decided
  · intro items
    have settings := Settings.foldl_enter_eq_given items
    have read := parse_items items
    refine ⟨settings ▸ read, settings, ?_⟩
    rw [read]
    exact finish_answers _ _
  · intro before a b after fileless apart
    rw [parse_items, parse_items, Settings.given_swap apart, Item.filterMap_swap fileless]
  · intro before a between b after o first later
    have mem : b ∈ between ++ b :: after := by simp
    obtain ⟨unnamed, -⟩ := Item.only_option first
    have names : (before ++ a :: (between ++ b :: after)).filterMap Item.name? =
        (before ++ (between ++ b :: after)).filterMap Item.name? := by
      simp [unnamed]
    rw [parse_items, parse_items, Settings.given_later first later mem, names]

/-- The second size counts, wherever the file stands, and makes room for the stomach. -/
theorem option_order_irrelevant_two_sizes :
    parse ["--tape-size", "3", "--stomach", "9", "--tape-size", "12", "x"] =
      .ok (run { tapeSize := 12, stomach := 9 } ["x"]) ∧
    parse ["--stomach", "9", "x", "--tape-size", "12"] =
      .ok (run { tapeSize := 12, stomach := 9 } ["x"]) := by
  let small : Item := .tapeSize (.ofNat 3 (by decide)) (by decide +kernel)
  let large : Item := .tapeSize (.ofNat 12 (by decide)) (by decide +kernel)
  let stomach : Item := .stomach (.ofNat 9 (by decide))
  let file : Item := .file "x" (by decide)
  obtain ⟨-, read, swapped, dropped⟩ := option_order_irrelevant
  have first : arguments [small, stomach, large, file] none =
      ["--tape-size", "3", "--stomach", "9", "--tape-size", "12", "x"] := by decide +kernel
  have last : arguments [stomach, file, large] none =
      ["--stomach", "9", "x", "--tape-size", "12"] := by decide +kernel
  have settings : Settings.given [stomach, file, large] = { tapeSize := 12, stomach := 9 } := by
    decide +kernel
  have answer : parse (arguments [stomach, file, large] none) =
      .ok (run { tapeSize := 12, stomach := 9 } ["x"]) := by
    rw [(read _).1, (read _).2.1, settings]
    rfl
  have same : parse (arguments [small, stomach, large, file] none) =
      parse (arguments [stomach, file, large] none) := by
    calc parse (arguments [small, stomach, large, file] none)
      _ = parse (arguments [stomach, large, file] none) :=
        dropped [] small [stomach] large [file] .tapeSize rfl rfl
      _ = parse (arguments [stomach, file, large] none) :=
        swapped [stomach] large file [] (.inl rfl) (by simp [file, Item.option?])
  rw [← first, ← last]
  exact ⟨same.trans answer, answer⟩

end Invocation

end HungryTape
