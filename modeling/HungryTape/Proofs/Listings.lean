import HungryTape.Proofs.Numerals
import HungryTape.Proofs.Words

/-!
A listing shows everything about the tokens. Each part of a line tells where it ends: numbers and
names by the character behind them, and a lexeme by its closing quote, since its own quotes are
escaped. So a listing can be read in one way only, and the source can be read off its lexemes.
-/

namespace HungryTape

/-- A run of characters ends where the text behind it fails the test. -/
theorem eq_of_runs {α : Type} (test : α → Bool) {u v s t : List α} (whole : u ++ s = v ++ t)
    (left : ∀ x ∈ u, test x = true) (stop : ∀ x ∈ s.head?, test x = false)
    (right : ∀ x ∈ v, test x = true) (stop' : ∀ x ∈ t.head?, test x = false) :
    u = v ∧ s = t := by
  have same : u = v := by
    rw [← takeWhile_append_of_stop left stop, whole, takeWhile_append_of_stop right stop']
  subst same
  exact ⟨rfl, List.append_cancel_left whole⟩

/-- Texts that can be told apart whatever stands behind them. -/
def Delimited {α : Type} (code : α → List Char) : Prop :=
  ∀ a b s t, code a ++ s = code b ++ t → a = b ∧ s = t

theorem Delimited.flatMap {α : Type} {code : α → List Char} (delimited : Delimited code)
    {s t : List Char} (stop : ∀ a u, code a ++ u ≠ s) (stop' : ∀ a u, code a ++ u ≠ t)
    {xs ys : List α} (whole : xs.flatMap code ++ s = ys.flatMap code ++ t) : xs = ys ∧ s = t := by
  induction xs generalizing ys with
  | nil =>
    cases ys with
    | nil => exact ⟨rfl, whole⟩
    | cons b ys =>
      rw [List.flatMap_cons, List.append_assoc] at whole
      exact absurd whole.symm (stop b _)
  | cons a xs ih =>
    rw [List.flatMap_cons, List.append_assoc] at whole
    cases ys with
    | nil => exact absurd whole (stop' a _)
    | cons b ys =>
      rw [List.flatMap_cons, List.append_assoc] at whole
      obtain ⟨rfl, rest⟩ := delimited a b _ _ whole
      obtain ⟨rfl, behind⟩ := ih rest
      exact ⟨rfl, behind⟩

namespace Numeral

/-- A numeral ends where something else follows than a digit. -/
theorem numeral_append {base m n : Nat} (test : Char → Bool) {s t : List Char}
    (several : 2 ≤ base) (few : base ≤ 16) (digit : ∀ d < base, test (digitChar d) = true)
    (stop : ∀ x ∈ s.head?, test x = false) (stop' : ∀ x ∈ t.head?, test x = false)
    (whole : (digits base m).map digitChar ++ s = (digits base n).map digitChar ++ t) :
    m = n ∧ s = t := by
  have digits (k : Nat) : ∀ x ∈ (digits base k).map digitChar, test x = true := by
    intro x written
    obtain ⟨d, mem, rfl⟩ := List.mem_map.mp written
    exact digit d (lt_of_mem_digits several mem)
  obtain ⟨same, behind⟩ := eq_of_runs test whole (digits m) stop (digits n) stop'
  exact ⟨eq_of_map_digitChar several few same, behind⟩

theorem decimal_append {m n : Nat} {s t : List Char}
    (stop : ∀ x ∈ s.head?, x.isDigit = false) (stop' : ∀ x ∈ t.head?, x.isDigit = false)
    (whole : (decimal m).toList ++ s = (decimal n).toList ++ t) : m = n ∧ s = t := by
  simp only [decimal, String.toList_ofList] at whole
  exact numeral_append Char.isDigit (by decide) (by decide) (by decide) stop stop' whole

theorem hexadecimal_append {m n : Nat} {s t : List Char}
    (whole : (hexadecimal m).toList ++ '\x7d' :: s = (hexadecimal n).toList ++ '\x7d' :: t) :
    m = n ∧ s = t := by
  simp only [hexadecimal, String.toList_ofList] at whole
  obtain ⟨same, behind⟩ :=
    numeral_append (· ≠ '\x7d') (by decide) (by decide) (by decide) (by simp) (by simp) whole
  exact ⟨same, (List.cons.inj behind).2⟩

end Numeral

namespace Text

/-- The letters that stand for characters behind a backslash. -/
def shortEscapes : List (Char × Char) :=
  [('\t', 't'), ('\r', 'r'), ('\n', 'n'), ('\'', '\''), ('"', '"'), ('\\', '\\')]

/-- The three ways to write a character between quotes. -/
inductive Escaped (c : Char) : List Char → Prop where
  | plain (free : c ≠ '\\') (inside : c ≠ '\'') : Escaped c [c]
  | short {x : Char} (listed : (c, x) ∈ shortEscapes) : Escaped c ['\\', x]
  | code : Escaped c
      ('\\' :: 'u' :: '\x7b' :: ((Numeral.hexadecimal c.toNat).toList ++ ['\x7d']))

theorem escaped_escapeChar (c : Char) : Escaped c (escapeChar c).toList := by
  unfold escapeChar
  split
  iterate 6
    · exact .short (by decide)
  · rename_i quote _ backslash
    split
    · rw [Char.toString, String.toList_singleton]
      exact .plain backslash quote
    · simp only [String.toList_append]
      exact .code

/-- No way to write a character is the start of another one. -/
theorem Escaped.unique {c d : Char} {u v s t : List Char} (left : Escaped c u)
    (right : Escaped d v) (whole : u ++ s = v ++ t) : c = d ∧ s = t := by
  have single : ∀ e ∈ shortEscapes, ∀ f ∈ shortEscapes, e.2 = f.2 → e.1 = f.1 := by decide
  have spare : ∀ e ∈ shortEscapes, e.2 ≠ 'u' := by decide
  cases left with
  | plain free =>
    cases right with
    | plain => simpa using whole
    | short | code => exact absurd (List.cons.inj whole).1 free
  | short listed =>
    cases right with
    | plain free => exact absurd (List.cons.inj whole).1.symm free
    | short listed' =>
      obtain ⟨same, behind⟩ := List.cons.inj (List.cons.inj whole).2
      exact ⟨single _ listed _ listed' same, behind⟩
    | code => exact absurd (List.cons.inj (List.cons.inj whole).2).1 (spare _ listed)
  | code =>
    cases right with
    | plain free => exact absurd (List.cons.inj whole).1.symm free
    | short listed => exact absurd (List.cons.inj (List.cons.inj whole).2).1.symm (spare _ listed)
    | code =>
      obtain ⟨same, behind⟩ := Numeral.hexadecimal_append (by simpa using whole)
      exact ⟨Char.toNat_inj.mp same, behind⟩

theorem Escaped.ne_quote {c : Char} {u : List Char} (h : Escaped c u) (s t : List Char) :
    u ++ s ≠ '\'' :: t := by
  intro whole
  cases h with
  | plain free inside => exact inside (List.cons.inj whole).1
  | short | code => exact absurd (List.cons.inj whole).1 (by decide)

theorem toList_escape (text : String) :
    (escape text).toList = text.toList.flatMap fun c => (escapeChar c).toList := by
  rw [escape, String.toList_join, List.flatMap_map]

/-- Quoted text ends at the first quote that is not escaped. -/
theorem escape_append {a b : String} {s t : List Char}
    (whole : (escape a).toList ++ '\'' :: s = (escape b).toList ++ '\'' :: t) : a = b ∧ s = t := by
  have delimited : Delimited fun c => (escapeChar c).toList := fun c d _ _ =>
    (escaped_escapeChar c).unique (escaped_escapeChar d)
  have stop (r : List Char) (c : Char) (u : List Char) : (escapeChar c).toList ++ u ≠ '\'' :: r :=
    (escaped_escapeChar c).ne_quote u r
  rw [toList_escape, toList_escape] at whole
  obtain ⟨same, behind⟩ := delimited.flatMap (stop s) (stop t) whole
  exact ⟨String.toList_inj.mp same, (List.cons.inj behind).2⟩

end Text

namespace Kind

theorem ofName?_name (kind : Kind) : ofName? kind.name = some kind := by
  cases kind <;> decide

theorem space_not_mem_name (kind : Kind) : ' ' ∉ kind.name.toList := by
  cases kind <;> decide

theorem name_append {kind other : Kind} {s t : List Char}
    (whole : kind.name.toList ++ ' ' :: s = other.name.toList ++ ' ' :: t) :
    kind = other ∧ s = t := by
  have word (kind : Kind) : ∀ x ∈ kind.name.toList, decide (x ≠ ' ') = true := by
    intro x mem
    simpa using ne_of_mem_of_not_mem mem kind.space_not_mem_name
  obtain ⟨same, behind⟩ :=
    eq_of_runs (· ≠ ' ') whole (word kind) (by simp) (word other) (by simp)
  have same : some kind = some other := by
    rw [← ofName?_name, ← ofName?_name, String.toList_inj.mp same]
  exact ⟨Option.some.inj same, (List.cons.inj behind).2⟩

end Kind

namespace Token

/-- The blanks that make a number as wide as its column in the listing. -/
def padding (width n : Nat) : List Char :=
  List.replicate (width - (Numeral.decimal n).toList.length) ' '

theorem padding_decimal_append {width m n : Nat} {s t : List Char}
    (stop : ∀ x ∈ s.head?, x.isDigit = false) (stop' : ∀ x ∈ t.head?, x.isDigit = false)
    (whole : padding width m ++ ((Numeral.decimal m).toList ++ s) =
      padding width n ++ ((Numeral.decimal n).toList ++ t)) : m = n ∧ s = t := by
  have blank (k : Nat) : ∀ x ∈ padding width k, decide (x = ' ') = true := by
    intro x mem
    simp [List.eq_of_mem_replicate mem]
  have written (k : Nat) (r : List Char) :
      ∀ x ∈ ((Numeral.decimal k).toList ++ r).head?, decide (x = ' ') = false := by
    intro x first
    rw [List.head?_append_of_ne_nil _ (Numeral.toList_decimal_ne_nil k)] at first
    have digit := Numeral.isDigit_of_mem_decimal (List.mem_of_mem_head? first)
    apply decide_eq_false
    rintro rfl
    exact absurd digit (by decide)
  obtain ⟨-, numbers⟩ :=
    eq_of_runs (· = ' ') whole (blank m) (written m s) (blank n) (written n t)
  exact Numeral.decimal_append stop stop' numbers

theorem decimal_padding_append {width m n : Nat} {s t : List Char}
    (whole : (Numeral.decimal m).toList ++ (padding width m ++ ' ' :: s) =
      (Numeral.decimal n).toList ++ (padding width n ++ ' ' :: t)) : m = n ∧ s = t := by
  have blank (k : Nat) (r : List Char) :
      ∀ x ∈ (padding width k ++ ' ' :: r).head?, x.isDigit = false := by
    intro x first
    have same : x = ' ' := by
      unfold padding at first
      generalize width - (Numeral.decimal k).toList.length = blanks at first
      cases blanks <;> simpa [List.replicate_succ, eq_comm] using first
    rw [same]
    rfl
  obtain ⟨rfl, behind⟩ := Numeral.decimal_append (blank m s) (blank n t) whole
  exact ⟨rfl, (List.cons.inj (List.append_cancel_left behind)).2⟩

theorem toList_listingLine (t : Token) :
    t.listingLine.toList =
      padding 4 t.location.line ++ ((Numeral.decimal t.location.line).toList ++ ':' ::
        ((Numeral.decimal t.location.column).toList ++ (padding 3 t.location.column ++ ' ' ::
          (t.kind.name.toList ++ ' ' :: '\'' ::
            ((Text.escape t.lexeme).toList ++ ['\'', '\n']))))) := by
  simp [listingLine, text, Text.padLeft, Text.padRight, List.leftpad, List.rightpad, padding]

theorem delimited_listingLine : Delimited fun t : Token => t.listingLine.toList := by
  rintro ⟨kind, lexeme, line, column⟩ ⟨kind', lexeme', line', column'⟩ r r' whole
  have colon {s : List Char} : ∀ x ∈ (':' :: s).head?, x.isDigit = false := by
    rintro x ⟨⟩
    rfl
  simp only [toList_listingLine, List.append_assoc, List.cons_append] at whole
  -- each part is taken off both texts, and leaves what stands behind it
  obtain ⟨rfl, columns⟩ := padding_decimal_append colon colon whole
  obtain ⟨rfl, names⟩ := decimal_padding_append (List.cons.inj columns).2
  obtain ⟨rfl, lexemes⟩ := Kind.name_append names
  obtain ⟨rfl, ends⟩ := Text.escape_append (List.cons.inj lexemes).2
  exact ⟨rfl, (List.cons.inj ends).2⟩

end Token

namespace Program

theorem toList_listing (p : Program) :
    p.listing.toList = p.toList.flatMap fun t => t.listingLine.toList := by
  rw [listing, String.toList_join, List.flatMap_map]

theorem eq_of_listing {p q : Program} (same : p.listing = q.listing) : p = q := by
  have line (t : Token) (s : List Char) : t.listingLine.toList ++ s ≠ [] := by
    simp [Token.toList_listingLine]
  have whole : (p.toList.flatMap fun t => t.listingLine.toList) ++ [] =
      (q.toList.flatMap fun t => t.listingLine.toList) ++ [] := by
    rw [← toList_listing, ← toList_listing, same]
  exact Array.toList_inj.mp (Token.delimited_listingLine.flatMap line line whole).1

theorem spelling_of_ofSource {source : String} {limit : Option Nat} {p : Program}
    (scanned : ofSource source limit = .ok p) : spelling p.toList = source.toList := by
  rw [eq_of_ofSource scanned]
  exact Scanner.spelling_tokensFrom .start source.toList

/-- Tokens with the same listing are the same, whatever their kinds, lexemes and places are, and so
are the sources that they were read from. -/
theorem listing_loses_nothing :
    (∀ p q : Program, p.listing = q.listing → p = q) ∧
    ∀ source source' limit limit' p q, ofSource source limit = .ok p →
      ofSource source' limit' = .ok q → p.listing = q.listing → source = source' := by
  refine ⟨fun _ _ => eq_of_listing, ?_⟩
  intro source source' limit limit' p q scanned scanned' same
  apply String.toList_inj.mp
  rw [← spelling_of_ofSource scanned, eq_of_listing same, spelling_of_ofSource scanned']

/-- The line numbers are wider than their column, and the lexemes are escaped. -/
def farDown : Program :=
  #[⟨.unknown, "é", ⟨12345, 1⟩⟩, ⟨.newline, "\n", ⟨12345, 2⟩⟩]

theorem listing_loses_nothing_farDown :
    farDown.listing = "12345:1   unknown '\\u\x7be9\x7d'\n12345:2   newline '\\n'\n" ∧
      ∀ p : Program, p.listing = "12345:1   unknown '\\u\x7be9\x7d'\n12345:2   newline '\\n'\n" →
        p = farDown := by
  have text : farDown.listing =
      "12345:1   unknown '\\u\x7be9\x7d'\n12345:2   newline '\\n'\n" := by decide +kernel
  refine ⟨text, ?_⟩
  intro p same
  exact listing_loses_nothing.1 p farDown (same.trans text.symm)

end Program

end HungryTape
