import HungryTape.Proofs.Numerals
import HungryTape.Proofs.Scanning
import Mathlib.Data.List.Chain

namespace HungryTape

/-- What a token says, wherever it stands. -/
def Token.word (t : Token) : Kind × String :=
  (t.kind, t.lexeme)

/-- The spellings of each kind. A letter of the table cannot start an identifier, but it may stand
inside one. -/
inductive Spells : Kind → List Char → Prop where
  | sign {c : Char} {kind : Kind} (listed : (c, kind) ∈ Kind.punctuation) : Spells kind [c]
  | number {digits : List Char} (nonempty : digits ≠ [])
      (digit : ∀ x ∈ digits, x.isDigit = true) : Spells .number digits
  | identifier {c : Char} {rest : List Char} (free : ∀ kind, (c, kind) ∉ Kind.punctuation)
      (letter : c.isAlpha = true) (word : ∀ x ∈ rest, x.isAlphanum = true) :
      Spells .identifier (c :: rest)
  | unknown {c : Char} (free : ∀ kind, (c, kind) ∉ Kind.punctuation)
      (special : c.isAlphanum = false) : Spells .unknown [c]

/-- The characters that make a word of the kind longer if they stand right behind it. -/
def Kind.absorbs : Kind → Char → Bool
  | number, x => x.isDigit
  | identifier, x => x.isAlphanum
  | _, _ => false

/-- Words of the right spelling, none of which goes on in the next one. -/
structure Readable (words : List (Kind × String)) : Prop where
  spelled : ∀ w ∈ words, Spells w.1 w.2.toList
  apart : words.IsChain fun v w => ∀ x ∈ w.2.toList.head?, v.1.absorbs x = false

theorem Spells.ne_nil {kind : Kind} {word : List Char} (h : Spells kind word) : word ≠ [] := by
  cases h with
  | number nonempty digit => exact nonempty
  | sign | identifier | unknown => simp

theorem Spells.digital {word : List Char} (h : Spells .number word) :
    ∀ x ∈ word, x.isDigit = true := by
  cases h with
  | number nonempty digit => exact digit
  | sign listed => simp [Kind.punctuation] at listed

/-- The digits of a number. -/
def Token.digits (t : Token) : List Nat :=
  t.lexeme.toList.map fun c => c.toNat - 48

theorem Token.integer?_of_spelled {t : Token} (spelled : Spells .number t.lexeme.toList) :
    t.integer? = some (Numeral.placeValue t.digits : Int) :=
  Numeral.integer?_eq_some_iff.mpr (.plain spelled.ne_nil spelled.digital)

theorem Kind.ofChar?_eq_none_iff {c : Char} :
    Kind.ofChar? c = none ↔ ∀ kind, (c, kind) ∉ Kind.punctuation := by
  constructor
  · intro free kind listed
    have found := List.lookup_eq_none_iff.mp free (c, kind) listed
    simp at found
  · intro free
    cases found : Kind.ofChar? c with
    | none => rfl
    | some kind => exact absurd (Kind.mem_punctuation_of_ofChar? found) (free kind)

theorem Kind.not_absorbs_of_mem {c : Char} {kind : Kind} (listed : (c, kind) ∈ Kind.punctuation)
    (x : Char) : kind.absorbs x = false := by
  have runless : ∀ entry ∈ Kind.punctuation, entry.2 ≠ .number ∧ entry.2 ≠ .identifier := by decide
  obtain ⟨number, identifier⟩ := runless (c, kind) listed
  unfold Kind.absorbs
  split <;> first | rfl | contradiction

theorem takeWhile_append_of_stop {α : Type} {test : α → Bool} {word rest : List α}
    (inside : ∀ x ∈ word, test x = true) (stops : ∀ x ∈ rest.head?, test x = false) :
    (word ++ rest).takeWhile test = word := by
  rw [List.takeWhile_append_of_pos inside]
  cases rest with
  | nil => simp
  | cons x rest => simp [stops x rfl]

theorem not_of_head?_dropWhile {α : Type} {test : α → Bool} {row : List α} {x : α}
    (h : x ∈ (row.dropWhile test).head?) : test x = false := by
  have stopped := List.head?_dropWhile_not test row
  rw [Option.mem_def.mp h] at stopped
  exact stopped

/-- A lexeme goes on as long as its kind lets it. -/
theorem lexemeTail_snd (c : Char) (rest : List Char) :
    (lexemeTail c rest).2 = rest.takeWhile (lexemeTail c rest).1.absorbs := by
  have alone {kind : Kind} (short : ∀ x, kind.absorbs x = false) :
      rest.takeWhile kind.absorbs = [] :=
    takeWhile_append_of_stop (fun _ mem => absurd mem List.not_mem_nil) (fun x _ => short x)
  cases found : Kind.ofChar? c with
  | some kind =>
    have listed := Kind.mem_punctuation_of_ofChar? found
    rw [lexemeTail_of_mem listed, alone (Kind.not_absorbs_of_mem listed)]
  | none =>
    simp only [lexemeTail, found]
    split
    · rfl
    · split
      · rfl
      · exact (alone fun _ => rfl).symm

theorem spells_lexeme (c : Char) (rest : List Char) :
    Spells (lexemeTail c rest).1 (c :: (lexemeTail c rest).2) := by
  cases found : Kind.ofChar? c with
  | some kind =>
    have listed := Kind.mem_punctuation_of_ofChar? found
    rw [lexemeTail_of_mem listed]
    exact .sign listed
  | none =>
    have free := Kind.ofChar?_eq_none_iff.mp found
    simp only [lexemeTail, found]
    split
    · rename_i digit
      refine .number (by simp) (List.forall_mem_cons.mpr ⟨digit, ?_⟩)
      exact List.all_eq_true.mp List.all_takeWhile
    · rename_i digitless
      split
      · rename_i letter
        exact .identifier free letter (List.all_eq_true.mp List.all_takeWhile)
      · rename_i letterless
        exact .unknown free (by simp [Char.isAlphanum, digitless, letterless])

theorem not_absorbs_behind_lexeme {c x : Char} {rest : List Char}
    (h : x ∈ (rest.drop (lexemeTail c rest).2.length).head?) :
    (lexemeTail c rest).1.absorbs x = false := by
  have behind : rest.drop (lexemeTail c rest).2.length =
      rest.dropWhile (lexemeTail c rest).1.absorbs := by
    apply List.append_cancel_left
    calc (lexemeTail c rest).2 ++ rest.drop (lexemeTail c rest).2.length
      _ = rest := lexemeTail_append_drop c rest
      _ = rest.takeWhile _ ++ rest.dropWhile _ := List.takeWhile_append_dropWhile.symm
      _ = (lexemeTail c rest).2 ++ rest.dropWhile _ := by rw [← lexemeTail_snd]
  rw [behind] at h
  exact not_of_head?_dropWhile h

/-- A word is found whole if the text behind it does not make it longer. -/
theorem lexemeTail_of_spells {kind : Kind} {c : Char} {tail rest : List Char}
    (spelled : Spells kind (c :: tail)) (apart : ∀ x ∈ rest.head?, kind.absorbs x = false) :
    lexemeTail c (tail ++ rest) = (kind, tail) := by
  cases spelled with
  | sign listed => exact lexemeTail_of_mem listed rest
  | number nonempty digit =>
    obtain ⟨first, later⟩ := List.forall_mem_cons.mp digit
    have digitless : ∀ entry ∈ Kind.punctuation, entry.1.isDigit = false := by decide
    have free : Kind.ofChar? c = none := by
      apply Kind.ofChar?_eq_none_iff.mpr
      intro kind listed
      simp [digitless (c, kind) listed] at first
    simp [lexemeTail, free, first, takeWhile_append_of_stop later apart]
  | identifier free letter word =>
    have digitless : c.isDigit = false := by
      unfold Char.isAlpha Char.isUpper Char.isLower at letter
      unfold Char.isDigit
      grind
    simp [lexemeTail, Kind.ofChar?_eq_none_iff.mpr free, digitless, letter,
      takeWhile_append_of_stop word apart]
  | unknown free special =>
    obtain ⟨letterless, digitless⟩ : c.isAlpha = false ∧ c.isDigit = false := by
      simpa [Char.isAlphanum] using special
    simp [lexemeTail, Kind.ofChar?_eq_none_iff.mpr free, digitless, letterless]

namespace Scanner

theorem tokensFrom_cons (location : Location) (c : Char) (rest : List Char) :
    tokensFrom location (c :: rest) =
      tokenAt location c rest ::
        tokensFrom ((c :: (lexemeTail c rest).2).foldl .past location)
          (rest.drop (lexemeTail c rest).2.length) := by
  rw [tokensFrom]

/-- The first token is the first word, and the scan goes on right behind it. -/
theorem tokensFrom_word {kind : Kind} {word rest : List Char} (spelled : Spells kind word)
    (apart : ∀ x ∈ rest.head?, kind.absorbs x = false) (location : Location) :
    tokensFrom location (word ++ rest) =
      ⟨kind, String.ofList word, location⟩ :: tokensFrom (word.foldl .past location) rest := by
  cases word with
  | nil => exact absurd rfl spelled.ne_nil
  | cons c tail =>
    have found := lexemeTail_of_spells spelled apart
    rw [List.cons_append, tokensFrom_cons, tokenAt, found, List.drop_left]

theorem word_tokenAt (location : Location) (c : Char) (rest : List Char) :
    (tokenAt location c rest).word =
      ((lexemeTail c rest).1, String.ofList (c :: (lexemeTail c rest).2)) := rfl

/-- The first word of a text starts with its first character. -/
theorem head?_words {location : Location} {text : List Char} {w : Kind × String}
    (h : w ∈ ((tokensFrom location text).map Token.word).head?) :
    w.2.toList.head? = text.head? := by
  cases text with
  | nil => simp [tokensFrom] at h
  | cons c rest =>
    rw [tokensFrom_cons, List.map_cons, List.head?_cons, Option.mem_some, word_tokenAt] at h
    simp [← h]

theorem readable_tokensFrom (location : Location) (text : List Char) :
    Readable ((tokensFrom location text).map Token.word) := by
  fun_induction tokensFrom location text with
  | case1 location => exact ⟨by simp, .nil⟩
  | case2 location c rest tail ih =>
    rw [List.map_cons, word_tokenAt]
    refine ⟨List.forall_mem_cons.mpr ⟨?_, ih.spelled⟩, List.isChain_cons.mpr ⟨?_, ih.apart⟩⟩
    · rw [String.toList_ofList]
      exact spells_lexeme c rest
    · intro w next x first
      rw [head?_words next] at first
      exact not_absorbs_behind_lexeme first

theorem words_tokensFrom {words : List (Kind × String)} (h : Readable words)
    (location : Location) :
    (tokensFrom location (words.flatMap fun w => w.2.toList)).map Token.word = words := by
  induction words generalizing location with
  | nil => simp [tokensFrom]
  | cons w words ih =>
    obtain ⟨spelled, later⟩ := List.forall_mem_cons.mp h.spelled
    obtain ⟨next, apart⟩ := List.isChain_cons.mp h.apart
    have ends : ∀ x ∈ (words.flatMap fun w => w.2.toList).head?, w.1.absorbs x = false := by
      intro x first
      cases words with
      | nil => simp at first
      | cons v words =>
        have nonempty : v.2.toList ≠ [] := (later v List.mem_cons_self).ne_nil
        apply next v rfl x
        rwa [List.flatMap_cons, List.head?_append_of_ne_nil _ nonempty] at first
    rw [List.flatMap_cons, tokensFrom_word spelled ends, List.map_cons, ih ⟨later, apart⟩]
    simp [Token.word]

/-- A scan splits where the last word of the first text ends, whatever stands behind it. -/
theorem tokensFrom_append {location : Location} {text more : List Char}
    (apart : ∀ t ∈ (tokensFrom location text).getLast?, ∀ x ∈ more.head?,
      t.kind.absorbs x = false) :
    tokensFrom location (text ++ more) =
      tokensFrom location text ++ tokensFrom (text.foldl .past location) more := by
  fun_induction tokensFrom location text with
  | case1 location => rfl
  | case2 location c rest tail ih =>
    have split : tail ++ rest.drop tail.length = rest := lexemeTail_append_drop c rest
    generalize behind : rest.drop tail.length = rest' at split ih apart
    have whole : (c :: tail) ++ rest' = c :: rest := by rw [List.cons_append, split]
    have ends : ∀ x ∈ (rest' ++ more).head?, (lexemeTail c rest).1.absorbs x = false := by
      cases rest' with
      | nil => exact apart (tokenAt location c rest) (by simp [tokensFrom])
      | cons y rest' =>
        intro x first
        exact not_absorbs_behind_lexeme (behind ▸ first)
    have later : ∀ t ∈ (tokensFrom ((c :: tail).foldl .past location) rest').getLast?,
        ∀ x ∈ more.head?, t.kind.absorbs x = false := by
      intro t last
      apply apart t
      rw [List.getLast?_cons, Option.mem_def.mp last]
      rfl
    calc tokensFrom location (c :: rest ++ more)
      _ = tokensFrom location ((c :: tail) ++ (rest' ++ more)) := by
        rw [← List.append_assoc, whole]
      _ = tokenAt location c rest ::
          tokensFrom ((c :: tail).foldl .past location) (rest' ++ more) :=
        tokensFrom_word (spells_lexeme c rest) ends location
      _ = _ := by
        rw [ih later, ← List.foldl_append, whole, List.cons_append]

/-- What a text says does not depend on where it stands. -/
theorem words_relocate (location location' : Location) (text : List Char) :
    (tokensFrom location text).map Token.word = (tokensFrom location' text).map Token.word := by
  have found := words_tokensFrom (readable_tokensFrom location' text) location
  rw [List.flatMap_map] at found
  have spelled := spelling_tokensFrom location' text
  unfold spelling at spelled
  simpa only [Token.word, spelled] using found

theorem tokensFrom_line (location : Location) (line : List Char) :
    tokensFrom location (line ++ ['\n']) =
      tokensFrom location line ++ [⟨.newline, "\n", line.foldl .past location⟩] := by
  have free (kind : Kind) : kind.absorbs '\n' = false := by
    cases kind <;> rfl
  have spelled : Spells .newline ['\n'] := .sign (by decide)
  have newline : tokensFrom (line.foldl .past location) (['\n'] ++ []) = _ :=
    tokensFrom_word spelled (by simp) _
  rw [List.append_nil, tokensFrom] at newline
  rw [tokensFrom_append (by simp [free]), newline]

end Scanner

namespace Program

/-- The tokens of a source are spelled as their kinds are. -/
theorem spells_of_scanned {source : String} {limit : Option Nat} {p : Program} {i : Nat}
    {t : Token} (scanned : ofSource source limit = .ok p) (here : p[i]? = some t) :
    Spells t.kind t.lexeme.toList := by
  rw [eq_of_ofSource scanned, List.getElem?_toArray] at here
  have mem : t.word ∈ (Scanner.tokensFrom .start source.toList).map Token.word :=
    List.mem_map_of_mem (List.mem_of_getElem? here)
  exact (Scanner.readable_tokensFrom .start source.toList).spelled t.word mem

/-- The words of every source are readable, and every readable row of words is the reading of its
own text. -/
theorem one_reading_each :
    (∀ source, ∃ p, ofSource source none = .ok p ∧ Readable (p.toList.map Token.word)) ∧
    ∀ words, Readable words →
      ∃ p, ofSource (String.join (words.map Prod.snd)) none = .ok p ∧
        p.toList.map Token.word = words := by
  constructor
  · intro source
    exact ⟨_, ofSource_none source, Scanner.readable_tokensFrom _ _⟩
  · intro words readable
    refine ⟨_, ofSource_none _, ?_⟩
    rw [String.toList_join, List.flatMap_map]
    exact Scanner.words_tokensFrom readable .start

end Program

end HungryTape
