import HungryTape.Proofs.Abridged
import HungryTape.Proofs.Consoles
import HungryTape.Proofs.TapeBounds
import HungryTape.Proofs.Words
import HungryTape.Script

/-!
Every row of bytes can be printed literally, one `@` for each byte. An `@` prints the first
character of the next token and steps over that token, whatever it is, and no two bytes are in one
token because an `@` stands between them. Only a backslash needs an escape.
-/

namespace HungryTape

theorem Text.charBytes_latin1Char (b : UInt8) : charBytes (latin1Char b) = [b] := by
  have small : b.toNat < 256 := b.toNat_lt
  simp [charBytes, toNat_latin1Char, small]

theorem Text.latin1Char_eq_backslash {b : UInt8} (h : latin1Char b = '\\') : b = 92 := by
  have same := congrArg Char.toNat h
  rw [toNat_latin1Char] at same
  exact UInt8.toNat_inj.mp same

namespace Output

variable {o : Output} {a b : List UInt8}

theorem writeRefusal?_eq_none_iff {bytes : List UInt8} :
    o.writeRefusal? bytes = none ↔
      ∀ limit ∈ o.writeLimit, bytes.length ≤ limit.amount - o.written.size := by
  unfold writeRefusal?
  cases o.writeLimit <;> simp

theorem size_write (room : o.writeRefusal? a = none) :
    (o.write a).written.size = o.written.size + a.length := by
  rw [← Array.length_toList, written_write room, List.length_append, Array.length_toList]

/-- Room for two writes is room for the first and then for the second. -/
theorem room_append (room : o.writeRefusal? (a ++ b) = none) :
    o.writeRefusal? a = none ∧ (o.write a).writeRefusal? b = none := by
  have whole := writeRefusal?_eq_none_iff.mp room
  have first : o.writeRefusal? a = none := by
    apply writeRefusal?_eq_none_iff.mpr
    intro limit mem
    have fits := whole limit mem
    rw [List.length_append] at fits
    omega
  refine ⟨first, writeRefusal?_eq_none_iff.mpr ?_⟩
  intro limit mem
  have fits := whole limit mem
  rw [List.length_append] at fits
  rw [size_write first]
  omega

theorem write_append (room : o.writeRefusal? (a ++ b) = none) :
    o.write (a ++ b) = (o.write a).write b := by
  obtain ⟨first, second⟩ := room_append room
  rw [write, write, accepted_eq room, accepted_eq second, write, accepted_eq first]
  have same : o.written.appendList (a ++ b) = (o.written.appendList a).appendList b := by
    apply Array.toList_inj.mp
    simp
  rw [same]

theorem write_nil (o : Output) : o.write [] = o := by
  have nothing : o.accepted [] = [] := by
    unfold accepted
    split <;> simp
  simp [write, nothing]

end Output

namespace Script

/-- The script that prints the bytes. A backslash would start an escape, so it is printed by one. -/
def literally (bytes : List UInt8) : List UInt8 :=
  bytes.flatMap fun b => if b = 92 then [64, 92, 92] else [64, b]

/-- The script as a text. -/
def literalText (bytes : List UInt8) : List Char :=
  (literally bytes).map Text.latin1Char

theorem literalText_backslash (bytes : List UInt8) :
    literalText (92 :: bytes) = ['@'] ++ (['\\'] ++ (['\\'] ++ literalText bytes)) := rfl

theorem literalText_plain {b : UInt8} (plain : b ≠ 92) (bytes : List UInt8) :
    literalText (b :: bytes) = ['@'] ++ Text.latin1Char b :: literalText bytes := by
  simp only [literalText, literally, List.flatMap_cons, if_neg plain, List.map_append]
  rfl

/-- What stands behind a byte is the next `@`. -/
theorem head?_literalText {bytes : List UInt8} {x : Char} (h : x ∈ (literalText bytes).head?) :
    x = '@' := by
  cases bytes with
  | nil => simp [literalText, literally] at h
  | cons b bytes =>
    by_cases plain : b = 92
    · subst plain
      rw [literalText_backslash] at h
      simpa using h.symm
    · rw [literalText_plain plain] at h
      simpa using h.symm

end Script

namespace Scanner

theorem not_absorbs_at (kind : Kind) : kind.absorbs '@' = false := by
  cases kind <;> rfl

/-- A byte before an `@` is a token by itself. -/
theorem tokensFrom_byte (b : UInt8) (bytes : List UInt8) (location : Location) :
    ∃ kind, (kind = .escape → b = 92) ∧
      tokensFrom location (Text.latin1Char b :: Script.literalText bytes) =
        ⟨kind, String.ofList [Text.latin1Char b], location⟩ ::
          tokensFrom (location.past (Text.latin1Char b)) (Script.literalText bytes) := by
  generalize found : lexemeTail (Text.latin1Char b) (Script.literalText bytes) = lexeme
  obtain ⟨kind, tail⟩ := lexeme
  have alone : tail = [] := by
    have runs := lexemeTail_snd (Text.latin1Char b) (Script.literalText bytes)
    rw [found] at runs
    cases text : Script.literalText bytes with
    | nil => simpa [text] using runs
    | cons x more =>
      have next : x = '@' := Script.head?_literalText (by rw [text]; rfl)
      simpa [text, next, not_absorbs_at] using runs
  subst alone
  refine ⟨kind, ?_, ?_⟩
  · intro escape
    have listed : ('\\', Kind.escape) ∈ Kind.punctuation := by decide
    have backslash := lexemeTail_kind_iff (c := Text.latin1Char b) listed (Script.literalText bytes)
    rw [found] at backslash
    exact Text.latin1Char_eq_backslash (backslash.mp escape)
  · rw [tokensFrom_cons, tokenAt, found]
    rfl

theorem tokensFrom_at (location : Location) (text : List Char) :
    tokensFrom location (['@'] ++ text) =
      ⟨.printLiteral, "@", location⟩ :: tokensFrom (location.past '@') text :=
  tokensFrom_word (.sign (by decide)) (fun _ _ => rfl) location

theorem tokensFrom_backslash (location : Location) (text : List Char) :
    tokensFrom location (['\\'] ++ text) =
      ⟨.escape, "\\", location⟩ :: tokensFrom (location.past '\\') text :=
  tokensFrom_word (.sign (by decide)) (fun _ _ => rfl) location

end Scanner

namespace Machine

variable {p : Program} {m : Machine}

/-- The machine some tokens further on, after it has written some bytes. -/
def further (k : Nat) (bytes : List UInt8) (m : Machine) : Machine :=
  { m with position := m.position + k, output := m.output.write bytes }

theorem further_further {j k : Nat} {a b : List UInt8}
    (room : m.output.writeRefusal? (a ++ b) = none) :
    (m.further j a).further k b = m.further (j + k) (a ++ b) := by
  simp only [further, Output.write_append room, Nat.add_assoc]

theorem further_nil {j k : Nat} {bytes : List UInt8} :
    (m.further j bytes).further k [] = m.further (j + k) bytes := by
  simp only [further, Output.write_nil, Nat.add_assoc]

/-- A token that does nothing is left behind. -/
theorem step_of_idle {t : Token} {rest : List Token} (live : m.commented = false)
    (fed : m.tape.starving = false) (here : p.onward m.position = t :: rest)
    (kind : t.kind = .escape) : m.step p = .running (m.further 1 []) := by
  have taken : m.taken? p = some t :=
    taken?_eq_some_iff.mpr ⟨live, (Program.of_onward_cons here).1⟩
  rw [step_of_inert taken (kind ▸ rfl) fed, further, Output.write_nil]
  rfl

theorem step_of_plain {t u : Token} {rest : List Token} {b : UInt8} (live : m.commented = false)
    (fed : m.tape.starving = false) (here : p.onward m.position = t :: u :: rest)
    (kind : t.kind = .printLiteral) (plain : u.kind ≠ .escape)
    (first : u.first? = some (Text.latin1Char b)) (room : m.output.writeRefusal? [b] = none) :
    m.step p = .running (m.further 2 [b]) := by
  obtain ⟨here, next⟩ := Program.of_onward_cons here
  have taken : m.taken? p = some t := taken?_eq_some_iff.mpr ⟨live, here⟩
  have next : (m.cursor p).peek? 1 = some u := (Program.of_onward_cons next).1
  have prints : m.printLiteral p = (.ok .next, m.further 1 [b]) := by
    simp only [printLiteral, next, plain, if_false, first, Option.map_some, Option.getD_some,
      Text.charBytes_latin1Char, emit, room]
    rfl
  rw [step_of_taken taken]
  simp only [dispatch, kind, prints, settled]
  simp only [further, fed, Bool.false_eq_true, if_false]
  rfl

theorem step_of_escape {t u v : Token} {rest : List Token} (live : m.commented = false)
    (fed : m.tape.starving = false) (here : p.onward m.position = t :: u :: v :: rest)
    (kind : t.kind = .printLiteral) (escape : u.kind = .escape) (first : v.first? = some '\\')
    (room : m.output.writeRefusal? [92] = none) : m.step p = .running (m.further 1 [92]) := by
  obtain ⟨here, next⟩ := Program.of_onward_cons here
  obtain ⟨next, second⟩ := Program.of_onward_cons next
  have taken : m.taken? p = some t := taken?_eq_some_iff.mpr ⟨live, here⟩
  have next : (m.cursor p).peek? 1 = some u := next
  have second : (m.cursor p).peek? 2 = some v := (Program.of_onward_cons second).1
  have prints : m.printLiteral p = (.ok .next, m.further 0 [92]) := by
    simp only [printLiteral, next, escape, if_true, second, Option.bind_some, first, escaped, emit,
      room]
    rfl
  rw [step_of_taken taken]
  simp only [dispatch, kind, prints, settled]
  simp only [further, fed, Bool.false_eq_true, if_false]
  rfl

/-- The tokens of one byte print it and are left behind. -/
theorem after_byte {b : UInt8} {bytes : List UInt8} {location : Location}
    (live : m.commented = false) (fed : m.tape.starving = false)
    (room : m.output.writeRefusal? [b] = none)
    (here : p.onward m.position = Scanner.tokensFrom location (Script.literalText (b :: bytes))) :
    ∃ n k location', m.after p n = some (m.further k [b]) ∧
      p.onward (m.position + k) = Scanner.tokensFrom location' (Script.literalText bytes) := by
  by_cases plain : b = 92
  · subst plain
    rw [Script.literalText_backslash, Scanner.tokensFrom_at, Scanner.tokensFrom_backslash,
      Scanner.tokensFrom_backslash] at here
    have second := (Program.of_onward_cons here).2
    have third := (Program.of_onward_cons second).2
    have rest := (Program.of_onward_cons third).2
    have first : "\\".toList.head? = some '\\' := by decide
    have printed : m.step p = .running (m.further 1 [92]) :=
      step_of_escape live fed here rfl rfl first room
    have passed : (m.further 1 [92]).step p = .running ((m.further 1 [92]).further 1 []) :=
      step_of_idle live fed second rfl
    have passed' : ((m.further 1 [92]).further 1 []).step p =
        .running (((m.further 1 [92]).further 1 []).further 1 []) :=
      step_of_idle live fed third rfl
    refine ⟨3, 3, _, ?_, rest⟩
    rw [after_succ_of_running printed, after_succ_of_running passed, after_succ_of_running passed',
      further_nil, further_nil]
    rfl
  · rw [Script.literalText_plain plain, Scanner.tokensFrom_at] at here
    obtain ⟨kind, escape, token⟩ := Scanner.tokensFrom_byte b bytes (location.past '@')
    rw [token] at here
    have first : (String.ofList [Text.latin1Char b]).toList.head? = some (Text.latin1Char b) := by
      simp
    have printed := step_of_plain live fed here rfl (fun h => plain (escape h)) first room
    have rest := (Program.of_onward_cons (Program.of_onward_cons here).2).2
    exact ⟨1, 2, _, after_succ_of_running printed 0, rest⟩

/-- From the `@` of the first byte to the end of the program. -/
theorem after_bytes {bytes : List UInt8} {location : Location} (live : m.commented = false)
    (fed : m.tape.starving = false) (room : m.output.writeRefusal? bytes = none)
    (here : p.onward m.position = Scanner.tokensFrom location (Script.literalText bytes)) :
    ∃ n k, m.after p n = some (m.further k bytes) ∧ p[m.position + k]? = none := by
  induction bytes generalizing m location with
  | nil =>
    have ended : p.onward m.position = [] := by
      rw [here, Script.literalText, Script.literally, List.flatMap_nil, List.map_nil,
        Scanner.tokensFrom]
    refine ⟨0, 0, ?_, Program.of_onward_nil ended⟩
    simp [after, further, Output.write_nil]
  | cons b bytes ih =>
    have room : m.output.writeRefusal? ([b] ++ bytes) = none := room
    obtain ⟨first, later⟩ := Output.room_append room
    obtain ⟨n, k, location', printed, next⟩ := after_byte live fed first here
    obtain ⟨n', k', reached, past⟩ := ih (m := m.further k [b]) live fed later next
    refine ⟨n + n', k + k', ?_, ?_⟩
    · rw [after_add, printed, Option.bind_some, reached, further_further room]
      rfl
    · rwa [← Nat.add_assoc]

theorem run_literal {bytes : List UInt8} (start : p.onward m.position =
      Scanner.tokensFrom .start (Script.literalText bytes))
    (live : m.commented = false) (fed : m.tape.starving = false)
    (room : m.output.writeRefusal? bytes = none) (flushes : m.output.flushRefusal? = none) :
    ∃ final, m.run p = (.ok .completed, final) ∧ final.tape = m.tape ∧
      final.output.written.toList = m.output.written.toList ++ bytes := by
  obtain ⟨n, k, reached, past⟩ := after_bytes (m := m.started p) live fed room start
  have finished : ((m.started p).further k bytes).step p =
      .finished (.ok .completed) ((m.started p).further k bytes) := by
    have past : p[((m.started p).further k bytes).position]? = none := past
    simp only [step, past]
  have kept : ((m.started p).further k bytes).output.flushRefusal? = none := flushes
  have ran := run_of_finished reached finished
  rw [kept] at ran
  refine ⟨_, ran, rfl, ?_⟩
  rw [Output.flush_written]
  exact Output.written_write room

end Machine

/-- Every row of bytes can be printed literally. Whatever the bytes are, the script for them is
read, and it completes on every tape, with every input and with every output that takes the bytes
and a flush. The bytes are all that is written, and all cells are still zero. -/
theorem Script.bytes_print_literally (bytes : List UInt8) {files : FileSystem} {path : String}
    {settings : Settings} (file : files path = .contents (literally bytes))
    (unlimited : settings.sourceLimit = none) (onTape : settings.stomach < settings.tapeSize)
    (journal : Journal) (console : Console) (room : console.output.writeRefusal? bytes = none)
    (flushes : console.output.flushRefusal? = none) :
    ∃ p tape final, (load files settings path journal).1 = .ok p ∧
      Tape.ofCapacity settings.tapeSize settings.stomach = .ok tape ∧
      (Machine.ofTape tape console).run p = (.ok .completed, final) ∧
      run settings p console = (.ok .completed, final.toConsole) ∧
      final.output.written.toList = console.output.written.toList ++ bytes ∧
      final.tape.cells.size = settings.tapeSize ∧ ∀ v ∈ final.tape.cells, v = 0 := by
  let tape : Tape := ⟨Array.replicate settings.tapeSize 0, 0, settings.stomach⟩
  let p : Program := (Scanner.tokensFrom .start (literalText bytes)).toArray
  have made : Tape.ofCapacity settings.tapeSize settings.stomach = .ok tape :=
    Tape.ofCapacity_eq onTape
  have fed : tape.starving = false := by
    simp [tape, Tape.starving, Tape.stomachValue, onTape]
  have read : Program.ofSource (Text.ofLatin1 (literally bytes)) none = .ok p := by
    rw [Program.ofSource_none, Text.ofLatin1, String.toList_ofList]
    rfl
  have start : p.onward 0 = Scanner.tokensFrom .start (literalText bytes) := by
    simp [Program.onward, p]
  obtain ⟨final, ran, kept, written⟩ :=
    Machine.run_literal (m := .ofTape tape console) start rfl fed room flushes
  have cells : final.tape.cells = Array.replicate settings.tapeSize 0 := congrArg Tape.cells kept
  refine ⟨p, tape, final, ?_, made, ran, ?_, written, ?_, ?_⟩
  · simp only [load, file, ofSource, unlimited, read]
  · simp only [run, made, ran]
    rfl
  · rw [cells, Array.size_replicate]
  · intro v mem
    rw [cells] at mem
    exact (Array.mem_replicate.mp mem).2

/-- A backslash, a newline, a `;`, two digits and a byte that is not ASCII. -/
theorem Script.bytes_print_literally_marks :
    let files : FileSystem :=
      fun _ => .contents [64, 92, 92, 64, 10, 64, 59, 64, 52, 64, 50, 64, 233]
    let settings : Settings := { tapeSize := 1, sourceLimit := none }
    ∃ p tape final, (load files settings "marks" {}).1 = .ok p ∧
      Tape.ofCapacity 1 0 = .ok tape ∧
      (Machine.ofTape tape { input := { rest := [7] } }).run p = (.ok .completed, final) ∧
      final.output.written.toList = [92, 10, 59, 52, 50, 233] ∧
      final.tape.cells.size = 1 ∧ ∀ v ∈ final.tape.cells, v = 0 := by
  intro files settings
  have file : files "marks" = .contents (literally [92, 10, 59, 52, 50, 233]) := by decide
  obtain ⟨p, tape, final, loaded, made, ran, -, written, size, zero⟩ :=
    bytes_print_literally [92, 10, 59, 52, 50, 233] file rfl (by decide : settings.stomach < 1) {}
      { input := { rest := [7] } } rfl rfl
  exact ⟨p, tape, final, loaded, made, ran, written, size, zero⟩

end HungryTape
