import HungryTape.Proofs.Abridged
import HungryTape.Proofs.Scanning

/-!
What stands in a comment does not matter. Two sources that differ only there are, without that
text, the same source, and each of them runs like it. A `{` is left out because it finds its target
in comments too, and so is an `@` before a `;` because it prints the `;` and no comment opens.
-/

namespace HungryTape

namespace Source

/-- What is left of a source when the text of its comments is deleted. The `;` that opens a comment
and the newline that ends it stay. The flag says whether the source starts inside a comment. -/
def bare (commented : Bool) : List Char → List Char
  | [] => []
  | c :: text =>
    if commented then
      if c = '\n' then c :: bare false text else bare true text
    else c :: bare (c = ';') text

theorem bare_live (c : Char) (rest : List Char) :
    bare false (c :: rest) = c :: bare (c = ';') rest := by
  simp [bare]

theorem bare_newline (rest : List Char) : bare true ('\n' :: rest) = '\n' :: bare false rest := rfl

theorem bare_text {c : Char} (inside : c ≠ '\n') (rest : List Char) :
    bare true (c :: rest) = bare true rest := by
  simp [bare, inside]

theorem bare_append_live {word : List Char} (live : ∀ c ∈ word, c ≠ ';') (rest : List Char) :
    bare false (word ++ rest) = word ++ bare false rest := by
  induction word with
  | nil => rfl
  | cons c word ih =>
    have first : c ≠ ';' := live c List.mem_cons_self
    have later : ∀ x ∈ word, x ≠ ';' := fun x mem => live x (List.mem_cons_of_mem c mem)
    simp [bare, first, ih later]

theorem bare_append_text {word : List Char} (inside : ∀ c ∈ word, c ≠ '\n') (rest : List Char) :
    bare true (word ++ rest) = bare true rest := by
  induction word with
  | nil => rfl
  | cons c word ih =>
    have first : c ≠ '\n' := inside c List.mem_cons_self
    have later : ∀ x ∈ word, x ≠ '\n' := fun x mem => inside x (List.mem_cons_of_mem c mem)
    simp [bare, first, ih later]

theorem takeWhile_bare {test : Char → Bool} (stops : test ';' = false) (text : List Char) :
    (bare false text).takeWhile test = text.takeWhile test := by
  induction text with
  | nil => rfl
  | cons c text ih =>
    by_cases accepted : test c = true
    · have live : c ≠ ';' := by
        rintro rfl
        simp [stops] at accepted
      simp [bare, live, accepted, ih]
    · simp [bare, accepted]

/-- A lexeme that starts outside comments is the same without their text. -/
theorem lexemeTail_bare (c : Char) (rest : List Char) :
    lexemeTail c (bare (c = ';') rest) = lexemeTail c rest := by
  by_cases opens : c = ';'
  · subst opens
    have alone (text : List Char) : lexemeTail ';' text = (.comment, []) :=
      lexemeTail_of_mem (by decide) text
    rw [alone, alone]
  · have digits : (bare false rest).takeWhile Char.isDigit = rest.takeWhile Char.isDigit :=
      takeWhile_bare rfl rest
    have word : (bare false rest).takeWhile Char.isAlphanum = rest.takeWhile Char.isAlphanum :=
      takeWhile_bare rfl rest
    simp only [opens, decide_false, lexemeTail, digits, word]

theorem ne_of_mem_lexemeTail {c x y : Char} {rest : List Char} (special : y.isAlphanum = false)
    (h : x ∈ (lexemeTail c rest).2) : x ≠ y := by
  rintro rfl
  simp [isAlphanum_of_mem_lexemeTail h] at special

/-- Behind a lexeme outside comments. -/
theorem drop_bare (c : Char) (rest : List Char) :
    (bare (c = ';') rest).drop (lexemeTail c rest).2.length =
      bare (c = ';') (rest.drop (lexemeTail c rest).2.length) := by
  by_cases opens : c = ';'
  · have alone : lexemeTail c rest = (.comment, []) := opens ▸ lexemeTail_of_mem (by decide) rest
    simp [alone]
  · have live : ∀ x ∈ (lexemeTail c rest).2, x ≠ ';' := fun x mem => ne_of_mem_lexemeTail rfl mem
    have split : bare false rest =
        (lexemeTail c rest).2 ++ bare false (rest.drop (lexemeTail c rest).2.length) := by
      rw [← bare_append_live live, lexemeTail_append_drop]
    simp only [opens, decide_false]
    rw [split, List.drop_left]

/-- Behind a lexeme inside a comment. -/
theorem bare_behind_text (c : Char) (rest : List Char) :
    bare true rest = bare true (rest.drop (lexemeTail c rest).2.length) := by
  have inside : ∀ x ∈ (lexemeTail c rest).2, x ≠ '\n' := fun x mem => ne_of_mem_lexemeTail rfl mem
  exact (congrArg (bare true) (lexemeTail_append_drop c rest)).symm.trans
    (bare_append_text inside _)

/-- What must not stand outside comments. -/
structure Tame (text : List Char) : Prop where
  branchless : '\x7b' ∉ text
  printless : ¬ ['@', ';'] <:+: text

theorem Tame.of_suffix {text rest : List Char} (tame : Tame text) (h : rest <:+ text) :
    Tame rest :=
  ⟨fun mem => tame.branchless (h.subset mem), fun mem => tame.printless (mem.trans h.isInfix)⟩

end Source

theorem Location.foldl_past_line {word : List Char} (inside : ∀ c ∈ word, c ≠ '\n')
    (location : Location) : (word.foldl past location).line = location.line := by
  induction word generalizing location with
  | nil => rfl
  | cons c word ih =>
    have first : c ≠ '\n' := inside c List.mem_cons_self
    rw [List.foldl_cons, ih fun x mem => inside x (List.mem_cons_of_mem c mem)]
    simp [past, first]

namespace Scanner

open Source

/-- An `@` is its own lexeme, so what it prints starts at the next character. -/
theorem not_comment_behind_print {location next : Location} {c : Char} {rest : List Char}
    (printless : ¬ ['@', ';'] <:+: bare false (c :: rest))
    (print : (tokenAt location c rest).kind = .printLiteral) {u : Token}
    (h : u ∈ (tokensFrom next (rest.drop (lexemeTail c rest).2.length)).head?) :
    u.kind ≠ .comment := by
  intro comment
  have sign : c = '@' := (tokenAt_kind_iff (by decide) location rest).mp print
  have alone : lexemeTail c rest = (.printLiteral, []) :=
    sign ▸ lexemeTail_of_mem (by decide) rest
  rw [alone, List.length_nil, List.drop_zero] at h
  obtain ⟨d, more, rfl, rfl⟩ := head?_tokensFrom h
  have opens : d = ';' := (tokenAt_kind_iff (by decide) next more).mp comment
  subst sign opens
  exact printless ⟨[], bare true more, by simp [bare_live]⟩

/-- Without the text of its comments a source has the same tokens at the same places outside
them. Inside a comment only the line is known. -/
theorem tokensFrom_abridges (commented : Bool) (location location' : Location) (text : List Char)
    (line : location.line = location'.line) (place : commented = false → location = location')
    (tame : Tame (bare commented text)) :
    Abridges commented (tokensFrom location text)
      (tokensFrom location' (bare commented text)) := by
  fun_induction tokensFrom location text generalizing commented location' with
  | case1 location =>
    simp only [bare, tokensFrom]
    exact .done commented
  | case2 location c rest tail ih =>
    cases commented with
    | true =>
      by_cases ends : c = '\n'
      · -- both sides have this newline, and behind it the columns agree again
        subst ends
        have alone (text : List Char) : lexemeTail '\n' text = (.newline, []) :=
          lexemeTail_of_mem (by decide) text
        have next : location.past '\n' = location'.past '\n' := by simp [Location.past, line]
        simp only [tail, alone] at ih ⊢
        rw [bare_newline] at tame ⊢
        rw [tokensFrom, alone]
        refine .closed ((tokenAt_kind_iff (by decide) _ _).mpr rfl)
          ((tokenAt_kind_iff (by decide) _ _).mpr rfl) ?_
        exact ih _ _ (congrArg Location.line next) (fun _ => next)
          (tame.of_suffix (List.suffix_cons _ _))
      · have inside : ∀ x ∈ c :: tail, x ≠ '\n' :=
          List.forall_mem_cons.mpr ⟨ends, fun x mem => ne_of_mem_lexemeTail rfl mem⟩
        rw [bare_text ends, bare_behind_text c] at tame ⊢
        refine .text (fun newline => ends ((tokenAt_kind_iff (by decide) _ _).mp newline)) ?_
        exact ih _ _ ((Location.foldl_past_line inside location).trans line)
          Bool.noConfusion tame
    | false =>
      obtain rfl : location = location' := place rfl
      have kind : (tokenAt location c rest).kind = .comment ↔ c = ';' :=
        tokenAt_kind_iff (by decide) location rest
      have same : tokenAt location c (bare (c = ';') rest) = tokenAt location c rest := by
        simp only [tokenAt, lexemeTail_bare]
      have behind : Tame (bare (c = ';') (rest.drop tail.length)) := by
        rw [← drop_bare]
        rw [bare_live] at tame
        exact tame.of_suffix ((List.drop_suffix _ _).trans (List.suffix_cons _ _))
      rw [bare_live, tokensFrom, same, lexemeTail_bare, drop_bare]
      refine .kept ?_ (fun print u mem => not_comment_behind_print tame.printless print mem) ?_
      · intro branch
        have brace : c = '\x7b' := (tokenAt_kind_iff (by decide) location rest).mp branch
        exact tame.branchless (by simp [bare_live, brace])
      · rw [decide_eq_decide.mpr kind]
        exact ih _ _ rfl (fun _ => rfl) behind

end Scanner

namespace Machine

open Source

/-- Two sources run alike if they are the same without the text of their comments: the same
outcome, or the same error at the same location, with the same tape, comparison, output and rest of
the input behind it. -/
theorem comment_text_irrelevant {source source' : String}
    (same : bare false source.toList = bare false source'.toList)
    (branchless : '\x7b' ∉ bare false source.toList)
    (printless : ¬ ['@', ';'] <:+: bare false source.toList) :
    ∃ p p', Program.ofSource source none = .ok p ∧ Program.ofSource source' none = .ok p' ∧
      ∀ (tape : Tape) (console : Console),
        let r := (ofTape tape console).run p
        let r' := (ofTape tape console).run p'
        r.1 = r'.1 ∧ r.2.tape = r'.2.tape ∧ r.2.comparison = r'.2.comparison ∧
          r.2.output = r'.2.output ∧ r.2.input = r'.2.input := by
  let left := Scanner.tokensFrom .start (bare false source.toList)
  have read (text : String) : Program.ofSource text none =
      .ok (Scanner.tokensFrom .start text.toList).toArray := by
    rcases Program.ofSource_eq text none with ⟨n, limited, -⟩ | ⟨-, ok⟩
    · cases limited
    · exact ok
  have tame : Tame (bare false source.toList) := ⟨branchless, printless⟩
  have first : Abridges false (Scanner.tokensFrom .start source.toList) left :=
    Scanner.tokensFrom_abridges false .start .start _ rfl (fun _ => rfl) tame
  have second : Abridges false (Scanner.tokensFrom .start source'.toList) left := by
    unfold left
    rw [same] at tame ⊢
    exact Scanner.tokensFrom_abridges false .start .start _ rfl (fun _ => rfl) tame
  refine ⟨_, _, read source, read source', fun tape console => ?_⟩
  -- Both runs are compared with the run of what is left, which has no comment text.
  obtain ⟨result, data⟩ := run_same first tape console
  obtain ⟨result', data'⟩ := run_same second tape console
  exact ⟨result.symm.trans result', data.tape.symm.trans data'.tape,
    data.comparison.symm.trans data'.comparison, data.output.symm.trans data'.output,
    data.input.symm.trans data'.input⟩

theorem comment_text_irrelevant_two_remarks :
    ∃ p p', Program.ofSource "[2;]\x7b\n+]=" none = .ok p ∧
      Program.ofSource "[2;@; stop\n+]=" none = .ok p' ∧
      ∀ (tape : Tape) (console : Console),
        let r := (ofTape tape console).run p
        let r' := (ofTape tape console).run p'
        r.1 = r'.1 ∧ r.2.tape = r'.2.tape ∧ r.2.comparison = r'.2.comparison ∧
          r.2.output = r'.2.output ∧ r.2.input = r'.2.input :=
  comment_text_irrelevant (by decide) (by decide) (by decide +kernel)

end Machine

end HungryTape
