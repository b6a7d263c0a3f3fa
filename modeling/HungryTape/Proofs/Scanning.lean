import HungryTape.Program

namespace HungryTape

namespace Location

/-- The place right behind a text: its lines are counted, and the characters of its last one. -/
def behind (text : List Char) : Location :=
  ⟨1 + text.count '\n', 1 + (text.reverse.takeWhile (· ≠ '\n')).length⟩

theorem past_behind (text : List Char) (c : Char) :
    (behind text).past c = behind (text ++ [c]) := by
  unfold past behind
  by_cases newline : c = '\n'
  · simp [newline, Nat.add_assoc]
  · have kept : (text ++ [c]).count '\n' = text.count '\n' := by simp [newline]
    simp only [newline, kept, ↓reduceIte]
    simp [newline, Nat.add_assoc]

theorem foldl_past_behind (before text : List Char) :
    text.foldl past (behind before) = behind (before ++ text) := by
  induction text generalizing before with
  | nil => simp
  | cons c text ih =>
    rw [List.foldl_cons, past_behind, ih]
    simp

end Location

/-- What the tokens spell together. -/
def spelling (tokens : List Token) : List Char :=
  tokens.flatMap fun t => t.lexeme.toList

theorem spelling_cons (t : Token) (tokens : List Token) :
    spelling (t :: tokens) = t.lexeme.toList ++ spelling tokens := rfl

theorem spelling_append (ts us : List Token) :
    spelling (ts ++ us) = spelling ts ++ spelling us :=
  List.flatMap_append

theorem spelling_split {tokens : List Token} {i : Nat} {t : Token} (here : tokens[i]? = some t) :
    spelling tokens =
      spelling (tokens.take i) ++ t.lexeme.toList ++ spelling (tokens.drop (i + 1)) := by
  obtain ⟨inside, rfl⟩ := List.getElem?_eq_some_iff.mp here
  calc spelling tokens
    _ = spelling (tokens.take i ++ tokens[i] :: tokens.drop (i + 1)) := by
      rw [← List.drop_eq_getElem_cons inside, List.take_append_drop]
    _ = _ := by rw [spelling_append, spelling_cons, List.append_assoc]

theorem lexemeTail_initial (c : Char) (rest : List Char) : (lexemeTail c rest).2 <+: rest := by
  unfold lexemeTail
  split
  · exact List.nil_prefix
  · split
    · exact List.takeWhile_prefix _
    · split
      · exact List.takeWhile_prefix _
      · exact List.nil_prefix

theorem lexemeTail_append_drop (c : Char) (rest : List Char) :
    (lexemeTail c rest).2 ++ rest.drop (lexemeTail c rest).2.length = rest :=
  List.prefix_iff_eq_append.mp (lexemeTail_initial c rest)

theorem isAlphanum_of_mem_lexemeTail {c x : Char} {rest : List Char}
    (h : x ∈ (lexemeTail c rest).2) : x.isAlphanum = true := by
  unfold lexemeTail at h
  split at h
  · simp at h
  · split at h
    · have digit : x.isDigit = true := List.all_eq_true.mp List.all_takeWhile x h
      simp [Char.isAlphanum, digit]
    · split at h
      · exact List.all_eq_true.mp List.all_takeWhile x h
      · simp at h

theorem Kind.mem_punctuation_of_ofChar? {c : Char} {kind : Kind} (h : Kind.ofChar? c = some kind) :
    (c, kind) ∈ Kind.punctuation := by
  obtain ⟨before, after, split, -⟩ := List.lookup_eq_some_iff.mp h
  rw [split]
  simp

/-- A character of the table is a token by itself. -/
theorem lexemeTail_of_mem {c : Char} {kind : Kind} (h : (c, kind) ∈ Kind.punctuation)
    (rest : List Char) : lexemeTail c rest = (kind, []) := by
  have found : ∀ entry ∈ Kind.punctuation, Kind.ofChar? entry.1 = some entry.2 := by decide
  have found : Kind.ofChar? c = some kind := found (c, kind) h
  simp [lexemeTail, found]

/-- No other token has the kind of a character of the table. -/
theorem lexemeTail_kind_iff {c x : Char} {kind : Kind} (h : (x, kind) ∈ Kind.punctuation)
    (rest : List Char) : (lexemeTail c rest).1 = kind ↔ c = x := by
  have special : ∀ entry ∈ Kind.punctuation,
      entry.2 ∉ [Kind.number, Kind.identifier, Kind.unknown] := by decide
  have single : ∀ entry ∈ Kind.punctuation, ∀ other ∈ Kind.punctuation,
      entry.2 = other.2 → entry.1 = other.1 := by decide
  constructor
  · intro same
    cases found : Kind.ofChar? c with
    | some other =>
      have mem := Kind.mem_punctuation_of_ofChar? found
      simp only [lexemeTail, found] at same
      exact single (c, other) mem (x, kind) h same
    | none =>
      refine absurd ?_ (special (x, kind) h)
      simp only [lexemeTail, found] at same
      rw [← same]
      split
      · simp
      · split <;> simp
  · rintro rfl
    rw [lexemeTail_of_mem h]

namespace Scanner

theorem tokenAt_lexeme (location : Location) (c : Char) (rest : List Char) :
    (tokenAt location c rest).lexeme.toList = c :: (lexemeTail c rest).2 := by
  simp [tokenAt]

theorem tokenAt_location (location : Location) (c : Char) (rest : List Char) :
    (tokenAt location c rest).location = location := rfl

theorem tokenAt_kind_iff {c x : Char} {kind : Kind} (h : (x, kind) ∈ Kind.punctuation)
    (location : Location) (rest : List Char) :
    (tokenAt location c rest).kind = kind ↔ c = x :=
  lexemeTail_kind_iff h rest

/-- The tokens of a text that starts at the location. -/
def tokensFrom (location : Location) : List Char → List Token
  | [] => []
  | c :: rest =>
    let tail := (lexemeTail c rest).2
    tokenAt location c rest ::
      tokensFrom ((c :: tail).foldl .past location) (rest.drop tail.length)
termination_by rest => rest.length
decreasing_by simp only [List.length_drop, List.length_cons]; omega

theorem toList_collect (tokens : Array Token) (location : Location) (text : List Char) :
    (collect tokens location text).toList = tokens.toList ++ tokensFrom location text := by
  fun_induction collect tokens location text with
  | case1 tokens location => simp [tokensFrom]
  | case2 tokens location c rest tail ih =>
    rw [ih, Array.toList_push, tokensFrom, List.append_assoc]
    rfl

theorem head?_tokensFrom {location : Location} {text : List Char} {t : Token}
    (h : t ∈ (tokensFrom location text).head?) :
    ∃ c rest, text = c :: rest ∧ t = tokenAt location c rest := by
  cases text with
  | nil => simp [tokensFrom] at h
  | cons c rest =>
    rw [tokensFrom] at h
    exact ⟨c, rest, rfl, by simpa using h.symm⟩

theorem spelling_tokensFrom (location : Location) (text : List Char) :
    spelling (tokensFrom location text) = text := by
  fun_induction tokensFrom location text with
  | case1 location => rfl
  | case2 location c rest tail ih =>
    rw [spelling_cons, tokenAt_lexeme, ih, List.cons_append, lexemeTail_append_drop]

theorem lexeme_ne_nil_of_mem_tokensFrom {location : Location} {text : List Char} {t : Token}
    (h : t ∈ tokensFrom location text) : t.lexeme ≠ "" := by
  fun_induction tokensFrom location text with
  | case1 location => simp at h
  | case2 location c rest tail ih =>
    rcases List.mem_cons.mp h with rfl | later
    · intro empty
      have spelled := tokenAt_lexeme location c rest
      simp [empty] at spelled
    · exact ih later

/-- The invariant of the scan: it goes on right behind what it has read. -/
theorem location_tokensFrom (before text : List Char) {i : Nat} {t : Token}
    (h : (tokensFrom (.behind before) text)[i]? = some t) :
    t.location = .behind (before ++ spelling ((tokensFrom (.behind before) text).take i)) := by
  generalize start : Location.behind before = location at h ⊢
  fun_induction tokensFrom location text generalizing before i with
  | case1 location => simp at h
  | case2 location c rest tail ih =>
    subst start
    cases i with
    | zero =>
      have first : tokenAt (.behind before) c rest = t := by simpa using h
      rw [← first, tokenAt_location]
      simp [spelling]
    | succ i =>
      have next : Location.behind (before ++ c :: tail) =
          (c :: tail).foldl .past (.behind before) :=
        (Location.foldl_past_behind before (c :: tail)).symm
      rw [ih (before ++ c :: tail) next h, List.take_succ_cons, spelling_cons, tokenAt_lexeme,
        List.append_assoc]

end Scanner

namespace Program

/-- Only a limit can refuse a source, and it does so if the source is longer. -/
theorem ofSource_eq (source : String) (limit : Option Nat) :
    (∃ n, limit = some n ∧ n < source.length ∧
      ofSource source limit = .error ⟨source.length, n⟩) ∨
    (∀ n, limit = some n → source.length ≤ n) ∧
      ofSource source limit = .ok (Scanner.tokensFrom .start source.toList).toArray := by
  have scanned : Scanner.collect #[] .start source.toList =
      (Scanner.tokensFrom .start source.toList).toArray := by
    apply Array.toList_inj.mp
    simp [Scanner.toList_collect]
  unfold ofSource Scanner.read Scanner.tooLarge? Scanner.ofSource
  cases limit with
  | none => simp [scanned]
  | some n =>
    by_cases large : n < source.length
    · simp [large]
    · have fits : source.length ≤ n := Nat.le_of_not_lt large
      simp [large, fits, scanned]

theorem ofSource_none (source : String) :
    ofSource source none = .ok (Scanner.tokensFrom .start source.toList).toArray := by
  rcases ofSource_eq source none with ⟨n, limited, -⟩ | ⟨-, read⟩
  · cases limited
  · exact read

theorem eq_of_ofSource {source : String} {limit : Option Nat} {p : Program}
    (scanned : ofSource source limit = .ok p) :
    p = (Scanner.tokensFrom .start source.toList).toArray := by
  rcases ofSource_eq source limit with ⟨n, -, -, refused⟩ | ⟨-, read⟩
  · cases refused.symm.trans scanned
  · exact (Except.ok.inj (read.symm.trans scanned)).symm

/-- A limit refuses exactly the sources that are longer. Of every other source each token has a
lexeme, the lexemes spell the source, and a token's location is right behind the text before it. -/
theorem tokens_spell_source (source : String) (limit : Option Nat) :
    ((∃ e, ofSource source limit = .error e) ↔ ∃ n, limit = some n ∧ n < source.length) ∧
    ((∀ n, limit = some n → source.length ≤ n) →
      ∃ p, ofSource source limit = .ok p ∧
        (∀ t ∈ p, t.lexeme ≠ "") ∧
        String.join (p.toList.map Token.lexeme) = source ∧
        ∀ i t, p[i]? = some t → ∃ before after,
          source.toList = before ++ t.lexeme.toList ++ after ∧
          before = spelling (p.toList.take i) ∧
          t.location.line = 1 + before.count '\n' ∧
          t.location.column = 1 + (before.reverse.takeWhile (· ≠ '\n')).length) := by
  rcases ofSource_eq source limit with ⟨n, limited, large, refused⟩ | ⟨fits, read⟩
  · constructor
    · exact ⟨fun _ => ⟨n, limited, large⟩, fun _ => ⟨_, refused⟩⟩
    · intro fits
      have := fits n limited
      omega
  · constructor
    · constructor
      · rintro ⟨e, refused⟩
        simp [read] at refused
      · rintro ⟨n, limited, large⟩
        have := fits n limited
        omega
    · intro _
      let tokens := Scanner.tokensFrom .start source.toList
      have spelled : spelling tokens = source.toList := Scanner.spelling_tokensFrom _ _
      refine ⟨tokens.toArray, read, ?_, ?_, ?_⟩
      · intro t mem
        exact Scanner.lexeme_ne_nil_of_mem_tokensFrom (List.mem_toArray.mp mem)
      · apply String.toList_inj.mp
        rw [String.toList_join, List.flatMap_map]
        exact spelled
      · intro i t here
        have here : tokens[i]? = some t := by simpa using here
        have located : t.location = .behind ([] ++ spelling (tokens.take i)) :=
          Scanner.location_tokensFrom [] source.toList here
        refine ⟨spelling (tokens.take i), spelling (tokens.drop (i + 1)), ?_, rfl, ?_, ?_⟩
        · rw [← spelled, spelling_split here]
        · exact congrArg Location.line located
        · exact congrArg Location.column located

end Program

end HungryTape
