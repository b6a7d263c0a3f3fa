import HungryTape.Proofs.Items

namespace HungryTape

/-- A command line that gives every setting, numbers in decimals. -/
def Settings.written (s : Settings) (files : List String) : List String :=
  ["--tape-size", Numeral.decimal s.tapeSize,
   "--stomach", Numeral.decimal s.stomach,
   "--source-limit", (s.sourceLimit.map Numeral.decimal).getD "none"] ++
  (if s.listTokens then ["--tokens"] else []) ++
  List.replicate s.verbosity "-v" ++
  "--" :: files

/-- The settings that a command line can give. -/
structure Settings.Givable (s : Settings) : Prop where
  tapeSize : s.tapeSize < 18446744073709551616
  stomach : s.stomach < s.tapeSize
  sourceLimit : ∀ n ∈ s.sourceLimit, 0 < n ∧ n < 18446744073709551616
  verbosity : s.verbosity ≤ 255

namespace Item

def ofLimit : (limit : Option Nat) → (∀ n ∈ limit, 0 < n ∧ n < 18446744073709551616) → Item
  | none, _ => sourceLimit none (by simp)
  | some n, given =>
    sourceLimit (some (.ofNat n (given n rfl).2)) (by
      rintro _ ⟨⟩
      rw [Figure.value_ofNat]
      exact (given n rfl).1)

variable {limit : Option Nat} (given : ∀ n ∈ limit, 0 < n ∧ n < 18446744073709551616)

theorem texts_ofLimit :
    (ofLimit limit given).texts = ["--source-limit", (limit.map Numeral.decimal).getD "none"] := by
  cases limit with
  | none => rfl
  | some n => simp [ofLimit, texts]

theorem name?_ofLimit : (ofLimit limit given).name? = none := by
  cases limit <;> rfl

theorem enter_ofLimit (s : Settings) :
    s.enter (ofLimit limit given) = { s with sourceLimit := limit } := by
  cases limit with
  | none => rfl
  | some n => simp [ofLimit, Settings.enter]

end Item

namespace Settings

variable {s : Settings} (given : s.Givable)

/-- The options with a value, all of them given. -/
def valued : List Item :=
  [.tapeSize (.ofNat s.tapeSize given.tapeSize) (by
      rw [Figure.value_ofNat]
      exact Nat.zero_lt_of_lt given.stomach),
   .stomach (.ofNat s.stomach (Nat.lt_trans given.stomach given.tapeSize)),
   .ofLimit s.sourceLimit given.sourceLimit]

def items : List Item :=
  valued given ++ (if s.listTokens then [.tokens] else []) ++
    List.replicate s.verbosity (.louder 1 Nat.one_pos)

theorem arguments_items (files : List String) :
    Invocation.arguments (items given) (some files) = s.written files := by
  have flag : Argument.flag 1 = "-v" := rfl
  unfold Invocation.arguments items valued written
  simp only [List.flatMap_append, List.flatMap_cons, Item.texts_ofLimit]
  cases s.listTokens <;> simp [Item.texts, flag, List.flatMap_replicate]

theorem names_items : (items given).filterMap Item.name? = [] := by
  unfold items valued
  simp only [List.filterMap_append, List.filterMap_cons, Item.name?_ofLimit]
  cases s.listTokens <;> simp [Item.name?]

/-- Flags of one letter are counted one by one. -/
theorem foldl_enter_flags {t : Settings} (bounded : t.verbosity ≤ 255) (n : Nat) :
    (List.replicate n (Item.louder 1 Nat.one_pos)).foldl enter t =
      { t with verbosity := min 255 (t.verbosity + n) } := by
  induction n generalizing t with
  | zero => simp [Nat.min_eq_right bounded]
  | succ n ih =>
    have once : t.enter (.louder 1 Nat.one_pos) =
        { t with verbosity := min 255 (t.verbosity + 1) } := rfl
    rw [List.replicate_succ, List.foldl_cons, once, ih (Nat.min_le_left _ _)]
    congr 1
    dsimp only
    omega

theorem foldl_enter_items : (items given).foldl enter {} = s := by
  have numbers : (valued given).foldl enter {} =
      { s with listTokens := false, verbosity := 0 } := by
    simp only [valued, List.foldl_cons, List.foldl_nil, Item.enter_ofLimit]
    simp [enter]
  have listing : (if s.listTokens then [Item.tokens] else []).foldl enter
      { s with listTokens := false, verbosity := 0 } = { s with verbosity := 0 } := by
    cases s.listTokens <;> simp [enter]
  rw [items, List.foldl_append, List.foldl_append, numbers, listing,
    foldl_enter_flags (Nat.zero_le 255)]
  simp [Nat.min_eq_right given.verbosity]

end Settings

/-- Whatever the settings are and whatever the files are called, the command line that is written
for them is accepted, and it asks for just these settings and files. -/
theorem Invocation.written_settings_read_back {s : Settings} (given : s.Givable)
    {files : List String} (asked : files ≠ []) : parse (s.written files) = .ok (run s files) := by
  rw [← Settings.arguments_items given, parse_arguments, Settings.foldl_enter_items,
    Settings.names_items]
  simp [finish, asked, given.stomach]

/-- The largest tape there is, with its last cell for a stomach. -/
def Settings.largest : Settings where
  tapeSize := 18446744073709551615
  sourceLimit := none
  stomach := 18446744073709551614
  listTokens := true
  verbosity := 2

/-- The names look like options. -/
theorem Invocation.written_settings_read_back_largest :
    parse ["--tape-size", "18446744073709551615", "--stomach", "18446744073709551614",
        "--source-limit", "none", "--tokens", "-v", "-v", "--", "", "--stomach", "--"] =
      .ok (run .largest ["", "--stomach", "--"]) := by
  have text : Settings.largest.written ["", "--stomach", "--"] =
      ["--tape-size", "18446744073709551615", "--stomach", "18446744073709551614",
        "--source-limit", "none", "--tokens", "-v", "-v", "--", "", "--stomach", "--"] := by
    decide +kernel
  rw [← text]
  exact written_settings_read_back ⟨by decide, by decide, by decide, by decide⟩ (by decide)

end HungryTape
