import HungryTape.Proofs.Arming
import HungryTape.Proofs.Coupling
import HungryTape.Proofs.Words

/-!
Lines added at the end do not change what happens before them. An instruction looks ahead for its
argument, its condition or the place to go on, but what it finds in its own program it finds in the
longer one too, and if it finds nothing there it fails. Only the last newline could take an argument
from the added text, and that text would have to start with a bracket.
-/

namespace HungryTape

namespace Program

/-- The first program ends with a newline, and the second one does not start with an argument for
it. -/
structure LineBreak (p q : Program) : Prop where
  line : ∀ i t, p[i]? = some t → t.kind ≠ .newline → i + 1 < p.size
  apart : ∀ t, q[0]? = some t → t.kind ≠ .parenOpen

variable {p : Program} (q : Program)

theorem getElem?_append_of_some {i : Nat} {t : Token} (here : p[i]? = some t) :
    (p ++ q)[i]? = some t := by
  obtain ⟨inside, -⟩ := Array.getElem?_eq_some_iff.mp here
  rw [Array.getElem?_append_left inside, here]

theorem lt_size_append {i : Nat} (inside : i < p.size) : i < (p ++ q).size := by
  rw [Array.size_append]
  exact Nat.lt_add_right _ inside

theorem findFrom?_append {test : Token → Bool} {i j : Nat} (h : p.findFrom? test i = some j) :
    (p ++ q).findFrom? test i = some j := by
  fun_induction findFrom? p test i with
  | case1 i inside found =>
    cases h
    rw [findFrom?, dif_pos (lt_size_append q inside),
      Array.getElem_append_left inside, if_pos found]
  | case2 i inside other ih =>
    rw [findFrom?, dif_pos (lt_size_append q inside),
      Array.getElem_append_left inside, if_neg other, ih h]
  | case3 => cases h

theorem findLiveFrom?_append {kind : Kind} {commented : Bool} {i j : Nat}
    (h : p.findLiveFrom? kind commented i = some j) :
    (p ++ q).findLiveFrom? kind commented i = some j := by
  fun_induction findLiveFrom? p kind commented i with
  | case1 i inside ih =>
    rw [findLiveFrom?, dif_pos (lt_size_append q inside),
      Array.getElem_append_left inside, if_pos rfl, ih h]
  | case2 commented i inside live comment ih =>
    rw [findLiveFrom?, dif_pos (lt_size_append q inside),
      Array.getElem_append_left inside, if_neg live, if_pos comment, ih h]
  | case3 commented i inside live code found =>
    cases h
    rw [findLiveFrom?, dif_pos (lt_size_append q inside),
      Array.getElem_append_left inside, if_neg live, if_neg code, if_pos found]
  | case4 commented i inside live code other ih =>
    rw [findLiveFrom?, dif_pos (lt_size_append q inside),
      Array.getElem_append_left inside, if_neg live, if_neg code, if_neg other, ih h]
  | case5 => cases h

end Program

namespace Cursor

variable {p q : Program} {i : Nat} {tape : Tape}

theorem peek?_append {k : Nat} (h : i + k < p.size) :
    (⟨p ++ q, i⟩ : Cursor).peek? k = (⟨p, i⟩ : Cursor).peek? k :=
  Array.getElem?_append_left h

theorem peek?_append_of_some {k : Nat} {t : Token} (h : (⟨p, i⟩ : Cursor).peek? k = some t) :
    (⟨p ++ q, i⟩ : Cursor).peek? k = some t :=
  Program.getElem?_append_of_some q h

theorem kind?_append_of_some {k : Nat} {kind : Kind} (h : (⟨p, i⟩ : Cursor).kind? k = some kind) :
    (⟨p ++ q, i⟩ : Cursor).kind? k = some kind := by
  obtain ⟨t, found, rfl⟩ := Option.map_eq_some_iff.mp h
  rw [kind?, peek?_append_of_some found, Option.map_some]

/-- Behind anything but a newline there is another token. -/
theorem peek?_next (brk : p.LineBreak q) {k : Nat} {t : Token}
    (h : (⟨p, i⟩ : Cursor).peek? k = some t) (goesOn : t.kind ≠ .newline) :
    (⟨p ++ q, i⟩ : Cursor).peek? (k + 1) = (⟨p, i⟩ : Cursor).peek? (k + 1) :=
  peek?_append (brk.line (i + k) t h goesOn)

theorem argument_append (brk : p.LineBreak q) {t : Token} (here : p[i]? = some t) (tape : Tape) :
    (⟨p ++ q, i⟩ : Cursor).argument tape = (⟨p, i⟩ : Cursor).argument tape := by
  rcases Nat.lt_or_ge (i + 1) p.size with inside | last
  · have opened (paren : (⟨p ++ q, i⟩ : Cursor).kind? 1 = some .parenOpen) :
        (⟨p ++ q, i⟩ : Cursor).peek? 2 = (⟨p, i⟩ : Cursor).peek? 2 := by
      rw [kind?, peek?_append inside] at paren
      obtain ⟨u, found, kind⟩ := Option.map_eq_some_iff.mp paren
      exact peek?_next brk found (by simp [kind])
    apply argument_congr tape (peek?_append inside) opened
    intro u paren found mention
    rw [opened paren] at found
    exact peek?_next brk found (by simp [mention])
  · -- the last newline: nothing follows in `p`, and no bracket follows in `q`
    have position : i < p.size := (Array.getElem?_eq_some_iff.mp here).1
    have nothing : (⟨p, i⟩ : Cursor).kind? 1 ≠ some .parenOpen := by
      simp [kind?, peek?, Array.getElem?_eq_none last]
    have noParen : (⟨p ++ q, i⟩ : Cursor).kind? 1 ≠ some .parenOpen := by
      intro paren
      obtain ⟨u, found, kind⟩ := Option.map_eq_some_iff.mp paren
      have first : q[0]? = some u := by
        have offset : i + 1 - p.size = 0 := by omega
        rw [peek?, Array.getElem?_append_right last, offset] at found
        exact found
      exact brk.apart u first kind
    rw [argument_of_no_paren tape nothing, argument_of_no_paren tape noParen]

theorem mentioned_append {k : Nat} {v : Int}
    (h : (⟨p, i⟩ : Cursor).mentioned tape k = .ok (some v)) :
    (⟨p ++ q, i⟩ : Cursor).mentioned tape k = .ok (some v) := by
  cases found : (⟨p, i⟩ : Cursor).peek? k with
  | none => simp [mentioned, found] at h
  | some t =>
    rw [mentioned, found] at h
    rw [mentioned, peek?_append_of_some found]
    exact h

theorem conditionOperand_append {location : Location} {k : Nat} {v : Int}
    (h : (⟨p, i⟩ : Cursor).conditionOperand tape location k = .ok v) :
    (⟨p ++ q, i⟩ : Cursor).conditionOperand tape location k = .ok v := by
  cases found : (⟨p, i⟩ : Cursor).peek? k with
  | none => simp [conditionOperand, found] at h
  | some t =>
    rw [conditionOperand, found] at h
    rw [conditionOperand, peek?_append_of_some found]
    dsimp only at h ⊢
    split at h
    · exact h
    · split at h
      · rename_i cell
        simp only [mentioned_append cell, h]
      · cases h
      · cases h
    · cases h

theorem condition_eq_ok_iff {c : Cursor} {location : Location} {comparison : Comparison} :
    c.condition tape location = .ok comparison ↔
      c.conditionOperand tape location 2 = .ok comparison.left ∧
      c.kind? 5 = some comparison.operator ∧
      c.conditionOperand tape location 7 = .ok comparison.right := by
  obtain ⟨left, operator, right⟩ := comparison
  unfold condition
  cases c.conditionOperand tape location 2 with
  | error f => simp [bind, Except.bind]
  | ok a =>
    cases c.kind? 5 with
    | none => simp [bind, Except.bind]
    | some kind =>
      cases c.conditionOperand tape location 7 <;>
        simp [bind, Except.bind, pure, Except.pure]

theorem condition_append {location : Location} {comparison : Comparison}
    (h : (⟨p, i⟩ : Cursor).condition tape location = .ok comparison) :
    (⟨p ++ q, i⟩ : Cursor).condition tape location = .ok comparison := by
  obtain ⟨left, operator, right⟩ := condition_eq_ok_iff.mp h
  exact condition_eq_ok_iff.mpr
    ⟨conditionOperand_append left, kind?_append_of_some operator, conditionOperand_append right⟩

end Cursor

namespace Machine

variable {p q : Program} {t : Token} {m m' : Machine} {flow : Flow}

theorem printLiteral_append (brk : p.LineBreak q) (here : p[m.position]? = some t)
    (goesOn : t.kind ≠ .newline) : m.printLiteral (p ++ q) = m.printLiteral p := by
  have first : (m.cursor (p ++ q)).peek? 1 = (m.cursor p).peek? 1 :=
    Cursor.peek?_append (brk.line _ t here goesOn)
  unfold printLiteral
  rw [first]
  split
  · rfl
  · rename_i next found
    split
    · rename_i escape
      have second : (m.cursor (p ++ q)).peek? 2 = (m.cursor p).peek? 2 :=
        Cursor.peek?_next brk found (by simp [escape])
      rw [second]
    · rfl

theorem arm_append (argument : (m.cursor (p ++ q)).argument m.tape = (m.cursor p).argument m.tape) :
    m.arm (p ++ q) t = m.arm p t := by
  rw [arm_eq, argument, ← arm_eq]

theorem openLoop_append
    (argument : (m.cursor (p ++ q)).argument m.tape = (m.cursor p).argument m.tape)
    (h : m.openLoop p t = (.ok flow, m')) : m.openLoop (p ++ q) t = (.ok flow, m') := by
  unfold openLoop at h ⊢
  cases found : (m.cursor p).findLive? .loopEnd with
  | none => simp [found] at h
  | some target =>
    have found' : (m.cursor (p ++ q)).findLive? .loopEnd = some target :=
      Program.findLiveFrom?_append q found
    rw [found] at h
    rw [found', arm_append argument]
    exact h

theorem branch_append (h : m.branch p t = (.ok flow, m')) :
    m.branch (p ++ q) t = (.ok flow, m') := by
  obtain ⟨comparison, header, found⟩ := branch_ok h
  have header' : (m.cursor (p ++ q)).condition m.tape t.location = .ok comparison :=
    Cursor.condition_append header
  have found' : (m.cursor (p ++ q)).find? comparison.resume = some m'.position :=
    Program.findFrom?_append q found
  unfold branch at h ⊢
  rw [header] at h
  rw [header']
  dsimp only [cursor, note] at h ⊢ found found'
  rw [found] at h
  rw [found']
  exact h

/-- An instruction that succeeds in a program does the same if lines are added to it. -/
theorem dispatch_append (brk : p.LineBreak q) (here : p[m.position]? = some t)
    (h : m.dispatch p t = (.ok flow, m')) : m.dispatch (p ++ q) t = (.ok flow, m') := by
  have argument (tape : Tape) :
      (m.cursor (p ++ q)).argument tape = (m.cursor p).argument tape :=
    Cursor.argument_append brk here tape
  have argumentOr (tape : Tape) (default : Int) :
      (m.cursor (p ++ q)).argumentOr tape default = (m.cursor p).argumentOr tape default := by
    rw [Cursor.argumentOr, argument, Cursor.argumentOr]
  rw [← h]
  unfold dispatch at h ⊢
  cases kind : t.kind <;> simp only [kind] at h ⊢
  case moveLeft | moveRight => rw [move, destination, argumentOr, move, destination]
  case increment | decrement => rw [adjust, argumentOr, adjust]
  case multiply | divide | modulo => rw [scale, argument, scale]
  case printLiteral => exact printLiteral_append brk here (by simp [kind])
  case newline => exact arm_append (argument m.tape.feed)
  case loopStart => rw [openLoop_append (argument m.tape) h, h]
  case condStart => rw [branch_append h, h]

theorem Stepped.append (brk : p.LineBreak q) (h : Stepped p m m') : Stepped (p ++ q) m m' := by
  have longer {t : Token} (taken : m.taken? p = some t) :
      m.taken? (p ++ q) = some t ∧ p[m.position]? = some t := by
    obtain ⟨live, here⟩ := taken?_eq_some_iff.mp taken
    exact ⟨taken?_eq_some_iff.mpr ⟨live, Program.getElem?_append_of_some q here⟩, here⟩
  cases h with
  | ignored here commented =>
    exact .ignored (Program.getElem?_append_of_some q here) commented
  | checked taken dispatched fed =>
    obtain ⟨taken', here⟩ := longer taken
    exact .checked taken' (dispatch_append brk here dispatched) fed
  | skipped taken dispatched =>
    obtain ⟨taken', here⟩ := longer taken
    exact .skipped taken' (dispatch_append brk here dispatched)

theorem Stepped.running (h : Stepped p m m') : m.step p = .running m' := by
  cases h with
  | ignored here commented => simp [step, here, commented]
  | checked taken dispatched fed =>
    obtain ⟨live, here⟩ := taken?_eq_some_iff.mp taken
    simp [step, here, live, dispatched, settled, Tape.starving, fed]
  | skipped taken dispatched =>
    obtain ⟨live, here⟩ := taken?_eq_some_iff.mp taken
    simp [step, here, live, dispatched, settled]

theorem after_append {k : Machine} {n : Nat} (brk : p.LineBreak q) (h : m.after p n = some k) :
    m.after (p ++ q) n = some k := by
  induction n generalizing k with
  | zero => exact h
  | succ n ih =>
    obtain ⟨a, before, running⟩ := after_succ_iff.mp h
    exact after_succ_iff.mpr ⟨a, ih before, ((step_running running).append brk).running⟩

theorem printLiteral_position {k : Machine} (h : m.printLiteral p = (.ok flow, k)) :
    k.position = m.position ∨ ∃ t, p[k.position]? = some t := by
  unfold printLiteral at h
  split at h
  · cases h
    exact .inl rfl
  · rename_i next found
    split at h
    · have stays := (emit_inPlace m (escaped (((m.cursor p).peek? 2).bind Token.first?))).position
      rw [h] at stays
      exact .inl stays
    · split at h
      · rename_i emitted
        cases h
        have stays := (emit_inPlace m ((next.first?.map Text.charBytes).getD [])).position
        rw [emitted] at stays
        exact .inr ⟨next, by rw [advance, stays]; exact found⟩
      · cases h

/-- The machine never goes further than to the end of the program. -/
structure Within (p : Program) (m : Machine) : Prop where
  position : m.position ≤ p.size
  armed : m.ArmedBehind p

/-- Wherever an instruction goes, it goes to a token. -/
theorem dispatch_within (here : p[m.position]? = some t) (armed : m.ArmedBehind p)
    (h : m.dispatch p t = (.ok flow, m')) : m'.position < p.size := by
  have inside {i : Nat} {u : Token} (found : p[i]? = some u) : i < p.size :=
    (Array.getElem?_eq_some_iff.mp found).1
  cases jumps : t.kind.jumps with
  | false => rw [(frame_of_dispatch h).position jumps]; exact inside here
  | true =>
    cases kind : t.kind <;> simp [kind, Kind.jumps] at jumps
    case printLiteral =>
      simp only [dispatch, kind] at h
      rcases printLiteral_position h with stays | ⟨u, found⟩
      · rw [stays]
        exact inside here
      · exact inside found
    case loopEnd =>
      simp only [dispatch, kind] at h
      cases closeLoop_moved h with
      | ahead plain => cases plain
      | armed arms => cases arms
      | closed position loop => rw [position]; exact inside here
      | rewound active left position loop tape commented =>
        obtain ⟨-, u, found, -⟩ := armed _ active
        rw [position]
        exact inside found
    case condStart =>
      simp only [dispatch, kind] at h
      obtain ⟨comparison, -, target⟩ := branch_ok h
      obtain ⟨u, found, -⟩ := Program.test_of_findFrom? target
      exact inside found

theorem Stepped.within (h : Stepped p m m') (within : m.Within p) : m'.Within p := by
  refine ⟨?_, h.armedBehind within.armed⟩
  cases h with
  | ignored here commented => exact (Array.getElem?_eq_some_iff.mp here).1
  | checked taken dispatched fed =>
    exact dispatch_within (taken?_eq_some_iff.mp taken).2 within.armed dispatched
  | skipped taken dispatched =>
    exact dispatch_within (taken?_eq_some_iff.mp taken).2 within.armed dispatched

/-- A run that completes ends right behind its program. If lines are added there, the machine
comes to stand in front of them as it was at the end. -/
theorem run_append {final : Machine} {tape : Tape} {console : Console} (brk : p.LineBreak q)
    (valid : tape.Valid) (completed : (ofTape tape console).run p = (.ok .completed, final)) :
    ∃ n k, ((ofTape tape console).started (p ++ q)).after (p ++ q) n = some k ∧
      k.position = p.size ∧ k.tape = final.tape ∧ k.loop = final.loop ∧
      k.comparison = final.comparison ∧ k.commented = final.commented ∧
      k.input = final.input ∧ k.output.written = final.output.written := by
  obtain ⟨n, last, _, reached, finished, rfl⟩ := run_ok completed
  cases finished with
  | completed past =>
    have within : last.Within p :=
      after_invariant (Within p) (fun _ _ within step => step.within within)
        ⟨Nat.zero_le _, fun _ active => by cases active⟩ reached
    have position : last.position = p.size :=
      Nat.le_antisymm within.position (Array.getElem?_eq_none_iff.mp past)
    -- the two runs start with different notes in their journals
    have start : Coupled (.roomier 0) ((ofTape tape console).started p)
        ((ofTape tape console).started (p ++ q)) :=
      ⟨⟨rfl, rfl⟩, (Tape.widen_zero tape).symm, rfl, rfl, rfl, rfl⟩
    obtain ⟨k, reached', coupled⟩ := after_coupled start valid (after_append brk reached)
    have tape : k.tape = last.tape := coupled.tape.trans (Tape.widen_zero last.tape)
    have written : k.output.written = last.output.flush.written := by
      rw [Output.flush_written, coupled.console.2]
    exact ⟨n, k, reached', coupled.position.trans position, tape, coupled.loop,
      coupled.comparison, coupled.commented, coupled.console.1, written⟩

end Machine

namespace Program

/-- The tokens of a text that ends with a newline stay as they are when more text follows, and the
words of that text are the same as on its own. -/
theorem ofSource_append {source more : String} (line : source.toList.getLast? = some '\n')
    (nonempty : more ≠ "") (apart : more.toList.head? ≠ some '(') :
    ∃ p q r first, ofSource source none = .ok p ∧ ofSource more none = .ok q ∧
      ofSource (source ++ more) none = .ok (p ++ r) ∧
      r.toList.map Token.word = q.toList.map Token.word ∧ r[0]? = some first ∧
      p.LineBreak r := by
  obtain ⟨text, ends⟩ := List.getLast?_eq_some_iff.mp line
  have tokens := Scanner.tokensFrom_line .start text
  rw [← ends] at tokens
  have nonempty : more.toList ≠ [] := by simpa using nonempty
  obtain ⟨c, rest, starts⟩ := List.exists_cons_of_ne_nil nonempty
  let behind := source.toList.foldl Location.past .start
  have found : (Scanner.tokensFrom behind more.toList).toArray[0]? =
      some (Scanner.tokenAt behind c rest) := by
    rw [starts, Scanner.tokensFrom_cons]
    rfl
  refine ⟨_, _, (Scanner.tokensFrom behind more.toList).toArray, _, ofSource_none source,
    ofSource_none more, ?_, Scanner.words_relocate _ _ _, found, ⟨?_, ?_⟩⟩
  · rw [ofSource_none, String.toList_append, Scanner.tokensFrom_append, List.append_toArray]
    intro t last x first
    rw [tokens, List.getLast?_concat] at last
    cases last
    rfl
  · intro i t here goesOn
    rw [List.getElem?_toArray, tokens] at here
    rw [List.size_toArray, tokens, List.length_append]
    rcases Nat.lt_or_ge i (Scanner.tokensFrom .start text).length with inside | last
    · exact Nat.add_lt_add_right inside 1
    · rw [List.getElem?_append_right last] at here
      obtain rfl := List.mem_singleton.mp (List.mem_of_getElem? here)
      exact absurd rfl goesOn
  · intro t first paren
    cases found.symm.trans first
    rw [Scanner.tokenAt_kind_iff (x := '(') (by decide)] at paren
    exact apart (by rw [starts, paren]; rfl)

end Program

namespace Machine

/-- Lines that are added to a source never rewrite the past. If the source ends with a newline, its
tokens stay what they are, and whatever the source does from a fresh tape until it completes, the
longer one does too before it takes the first token of the added text. -/
theorem appended_lines_keep_past (source more : String)
    (line : source.toList.getLast? = some '\n') (nonempty : more ≠ "")
    (apart : more.toList.head? ≠ some '(') :
    ∃ p q r first, Program.ofSource source none = .ok p ∧ Program.ofSource more none = .ok q ∧
      Program.ofSource (source ++ more) none = .ok (p ++ r) ∧
      r.toList.map Token.word = q.toList.map Token.word ∧ r[0]? = some first ∧
      ∀ capacity stomach tape, Tape.ofCapacity capacity stomach = .ok tape →
        ∀ console final, (ofTape tape console).run p = (.ok .completed, final) →
          ∃ n k, ((ofTape tape console).started (p ++ r)).after (p ++ r) n = some k ∧
            (p ++ r)[k.position]? = some first ∧ k.position = p.size ∧
            k.tape = final.tape ∧ k.loop = final.loop ∧
            k.comparison = final.comparison ∧ k.commented = final.commented ∧
            k.input = final.input ∧ k.output.written = final.output.written := by
  obtain ⟨p, q, r, first, read, read', readBoth, words, starts, brk⟩ :=
    Program.ofSource_append line nonempty apart
  refine ⟨p, q, r, first, read, read', readBoth, words, starts, ?_⟩
  intro capacity stomach tape made console final completed
  obtain ⟨n, k, reached, position, kept⟩ := run_append brk (Tape.ofCapacity_valid made) completed
  have ahead : (p ++ r)[k.position]? = some first := by
    rw [position, Array.getElem?_append_right (Nat.le_refl _), Nat.sub_self, starts]
  exact ⟨n, k, reached, ahead, position, kept⟩

/-- A line that eats three units and burns one of them. Its newline arms a loop. -/
def meal : Program :=
  #[⟨.increment, "+", ⟨1, 1⟩⟩, ⟨.parenOpen, "(", ⟨1, 2⟩⟩, ⟨.number, "3", ⟨1, 3⟩⟩,
    ⟨.newline, "\n", ⟨1, 4⟩⟩]

/-- The added line closes the loop of the line before it. -/
theorem appended_lines_keep_past_meal :
    let m := ofTape ⟨#[0, 0], 0, 0⟩ { input := { rest := [] } }
    Program.ofSource "+(3\n" none = .ok meal ∧ (m.run meal).1 = .ok .completed ∧
    ∃ r n k, Program.ofSource "+(3\n]=\n" none = .ok (meal ++ r) ∧
      (m.started (meal ++ r)).after (meal ++ r) n = some k ∧ k.position = 4 ∧
      k.tape = ⟨#[2, 0], 0, 0⟩ ∧ k.loop = some ⟨3, 2, true⟩ := by
  let m := ofTape ⟨#[0, 0], 0, 0⟩ { input := { rest := [] } }
  have scanned : Program.ofSource "+(3\n" none = .ok meal := by decide +kernel
  have reached : (m.started meal).after meal 4 = some { m with
      position := 4
      tape := ⟨#[2, 0], 0, 0⟩
      loop := some ⟨3, 2, true⟩ } := by
    decide +kernel
  have ran := run_of_finished reached rfl
  obtain ⟨p, q, r, first, read, -, readBoth, -, -, keeps⟩ :=
    appended_lines_keep_past "+(3\n" "]=\n" (by decide) (by decide) (by decide)
  cases read.symm.trans scanned
  obtain ⟨n, k, passed, -, position, tape, loop, -⟩ := keeps 2 0 _ rfl _ _ ran
  exact ⟨scanned, congrArg Prod.fst ran, r, n, k, readBoth, passed, position, tape, loop⟩

end Machine

end HungryTape
