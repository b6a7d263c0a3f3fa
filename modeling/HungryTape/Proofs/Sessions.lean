import HungryTape.Proofs.Coupling
import HungryTape.Proofs.Trials

/-!
Between two files of a session nothing is kept but the streams. So a session can be ended between
any two of its files, and a new one on the same streams goes on with the rest. Only the output is
flushed once more, and no program can tell when its output was flushed.
-/

namespace HungryTape

namespace Output

/-- The same bytes on streams that never refuse a flush. When they were flushed may differ. -/
structure SameBytes (o o' : Output) : Prop where
  written : o'.written = o.written
  writeLimit : o'.writeLimit = o.writeLimit
  unrefused : o.flushLimit = none
  unrefused' : o'.flushLimit = none

theorem SameBytes.writeRefusal? {o o' : Output} (h : o.SameBytes o') (bytes : List UInt8) :
    o'.writeRefusal? bytes = o.writeRefusal? bytes := by
  simp only [Output.writeRefusal?, h.written, h.writeLimit]

theorem SameBytes.write {o o' : Output} (h : o.SameBytes o') (bytes : List UInt8) :
    (o.write bytes).SameBytes (o'.write bytes) :=
  { h with written := by simp only [Output.write, accepted, h.written, h.writeLimit] }

theorem SameBytes.flush {o o' : Output} (h : o.SameBytes o') : o.flush.SameBytes o'.flush where
  written := by simp only [flush_written, h.written]
  writeLimit := by simp only [flush_writeLimit, h.writeLimit]
  unrefused := by rw [flush_flushLimit, h.unrefused]
  unrefused' := by rw [flush_flushLimit, h.unrefused']

/-- A flush in between is not seen in the bytes. -/
theorem SameBytes.of_flush {o : Output} (h : o.flushLimit = none) : o.SameBytes o.flush :=
  ⟨flush_written o, flush_writeLimit o, h, (flush_flushLimit o).trans h⟩

end Output

/-- Consoles that only differ in the flushes of their outputs. -/
structure Console.SameStreams (c c' : Console) : Prop where
  input : c'.input = c.input
  journal : c'.journal = c.journal
  output : c.output.SameBytes c'.output

/-- Programs cannot see when their output was flushed. -/
def Coupling.unflushed : Coupling where
  room := 0
  console := Console.SameStreams
  excuse _ _ _ := False
  offTape wider _ := absurd wider (Nat.lt_irrefl 0)
  lasts excuse _ := excuse
  flushed excuse := excuse
  note e same := { same with journal := by simp only [Console.note, same.journal] }
  write bytes same :=
    .inl ⟨same.output.writeRefusal? bytes, { same with output := same.output.write bytes }⟩
  flush same := by
    refine ⟨?_, { same with output := same.output.flush }⟩
    rw [Output.flushRefusal?_of_unlimited same.output.unrefused,
      Output.flushRefusal?_of_unlimited same.output.unrefused']
  read _ same := by
    refine .inl ⟨by rw [same.input], { same with input := ?_ }⟩
    simp only [Console.take, same.input]

theorem Script.run_same {c c' : Console} (same : c.SameStreams c') (settings : Settings)
    (p : Program) :
    (Script.run settings p c').1 = (Script.run settings p c).1 ∧
      (Script.run settings p c).2.SameStreams (Script.run settings p c').2 := by
  unfold Script.run
  split
  · exact ⟨rfl, same⟩
  · rename_i tape made
    have start : Machine.Coupled .unflushed ((Machine.ofTape tape c).started p)
        ((Machine.ofTape tape c').started p) :=
      ⟨Coupling.unflushed.note _ same, (Tape.widen_zero tape).symm, rfl, rfl, rfl, rfl⟩
    cases Machine.run_alike start (Tape.ofCapacity_valid made) with
    | same result coupled =>
      exact ⟨congrArg (Except.mapError Failure.fault) result, coupled.console⟩
    | excused failed excuse => exact excuse.elim

namespace Session

variable (files : FileSystem) (settings : Settings)

/-- A new session on the streams of an old one. -/
def renewed (s : Session) : Session :=
  { s with toSummary := {} }

/-- Sessions on streams that only differ in their flushes. They may have counted differently. -/
structure Same (s s' : Session) : Prop where
  console : s.toConsole.SameStreams s'.toConsole
  diagnostics : s'.diagnostics = s.diagnostics

section

variable {s s' : Session}

theorem Same.note (same : Same s s') (e : Event) : Same (s.note e) (s'.note e) :=
  { same with console := Coupling.unflushed.note e same.console }

theorem Same.list (same : Same s s') (bytes : List UInt8) :
    Same (s.list bytes) (s'.list bytes) where
  console := { same.console with
    journal := by simp only [Session.list, same.console.journal, same.diagnostics] }
  diagnostics := by simp only [Session.list, same.diagnostics]

theorem perform_same (same : Same s s') (p : Program) :
    (s'.perform settings p).1 = (s.perform settings p).1 ∧
      Same (s.perform settings p).2 (s'.perform settings p).2 := by
  obtain ⟨result, console⟩ := Script.run_same same.console settings p
  exact ⟨result, console, same.diagnostics⟩

theorem attempt_same (same : Same s s') (path : String) :
    (s'.attempt files settings path).1 = (s.attempt files settings path).1 ∧
      Same (s.attempt files settings path).2 (s'.attempt files settings path).2 := by
  unfold attempt
  rw [same.console.journal]
  generalize Script.load files settings path s.journal = r
  obtain ⟨found, journal⟩ := r
  have read : Same { s with journal } { s' with journal } :=
    { same with console := { same.console with journal := rfl } }
  cases found with
  | error e => exact ⟨rfl, read⟩
  | ok p =>
    have refusal : s'.diagnostics.writeRefusal? (announce path p) =
        s.diagnostics.writeRefusal? (announce path p) := by rw [same.diagnostics]
    dsimp only
    rw [refusal]
    split
    · split
      · exact perform_same settings (read.list _) p
      · exact ⟨rfl, read.list _⟩
    · exact perform_same settings read p

theorem trial_same (same : Same s s') (path : String) :
    s'.trial files settings path = s.trial files settings path :=
  congrArg (Trial.mk path) (attempt_same files settings (same.note _) path).1

theorem runFile_same (same : Same s s') (path : String) :
    Same (s.runFile files settings path) (s'.runFile files settings path) := by
  obtain ⟨result, console, diagnostics⟩ :=
    attempt_same files settings (same.note (.running path)) path
  rw [runFile_eq, runFile_eq]
  refine ⟨{ console with journal := ?_ }, diagnostics⟩
  rw [conclude, conclude, result, console.journal]

/-- The same files are tried with the same results, and the streams stay the same. -/
theorem runFiles_same (same : Same s s') (going : s.ending = none) (going' : s'.ending = none)
    (paths : List String) :
    s'.trials files settings paths = s.trials files settings paths ∧
      Same (s.runFiles files settings paths) (s'.runFiles files settings paths) := by
  induction paths generalizing s s' with
  | nil => exact ⟨rfl, same⟩
  | cons path paths ih =>
    have ending := ending_runFile files settings going path
    have ending' := ending_runFile files settings going' path
    have ran := runFile_same files settings same path
    rw [runFiles_cons files settings going, runFiles_cons files settings going', trials, trials]
    rw [trial_same files settings same] at ending' ⊢
    split
    · exact ⟨rfl, ran⟩
    · rename_i goes
      have goes : (s.trial files settings path).ending? = none := by simpa using goes
      obtain ⟨later, same⟩ := ih ran (ending.trans goes) (ending'.trans goes)
      exact ⟨by rw [later], same⟩

end

theorem runAll_of_unlimited {s : Session} (unlimited : s.output.flushLimit = none)
    (paths : List String) :
    let last := s.renewed.runFiles files settings paths
    s.renewed.runAll files settings paths =
      (.ok last.toSummary, { last with output := last.output.flush }) := by
  have kept := (runFiles_adds files settings (s := s.renewed) rfl paths).flushLimit
  have refusal := Output.flushRefusal?_of_unlimited (kept.trans unlimited)
  simp only [runAll, refusal]

/-- A session that goes on does what a new one on its streams would do, and counts that on top of
what it has. -/
theorem runFiles_resumed {t : Session} (going : t.ending = none)
    (unlimited : t.output.flushLimit = none) (paths : List String) :
    let new := { t with output := t.output.flush }.renewed.runFiles files settings paths
    Same (t.runFiles files settings paths) new ∧
      (t.runFiles files settings paths).toSummary = t.toSummary.followedBy new.toSummary := by
  let t' := { t with output := t.output.flush }.renewed
  have streams : Same t t' := ⟨⟨rfl, rfl, .of_flush unlimited⟩, rfl⟩
  obtain ⟨tried, same⟩ := runFiles_same files settings streams going rfl paths
  have new : Adds t' (t'.trials files settings paths) (t'.runFiles files settings paths) :=
    runFiles_adds files settings rfl paths
  refine ⟨same, ?_⟩
  calc (t.runFiles files settings paths).toSummary
    _ = (t.trials files settings paths).foldl .tally t.toSummary :=
      (runFiles_adds files settings going paths).summary
    _ = (t.trials files settings paths).foldl .tally (t.toSummary.followedBy {}) := by
      rw [Summary.followedBy_empty going]
    _ = t.toSummary.followedBy ((t'.trials files settings paths).foldl .tally {}) := by
      rw [Summary.foldl_followedBy, tried]
    _ = t.toSummary.followedBy (t'.runFiles files settings paths).toSummary :=
      congrArg _ new.summary.symm

/-- A session over two lists of files is a session over the first, and then, if that one was not
cut short, a new session over the second on the streams as they are by then. The counts add up, and
only the flush in between is left out. -/
theorem sessions_compose (fs gs : List String) (s : Session)
    (unlimited : s.output.flushLimit = none) :
    let first := s.renewed.runAll files settings fs
    let second := first.2.renewed.runAll files settings gs
    let whole := s.renewed.runAll files settings (fs ++ gs)
    let tried := s.renewed.trials files settings fs
    ∃ a b, first.1 = .ok a ∧ second.1 = .ok b ∧
      (a.ending ≠ none → whole = first) ∧
      (a.ending = none →
        whole.1 = .ok ⟨a.completed + b.completed, a.failed + b.failed, b.ending⟩ ∧
        whole.2.journal = second.2.journal ∧
        whole.2.output.written = second.2.output.written ∧
        whole.2.diagnostics = second.2.diagnostics ∧
        whole.2.input = second.2.input) ∧
      a.Accounts fs tried ∧
      first.2.journal.failures = s.journal.failures ++ tried.filterMap Trial.failure? := by
  let t := s.renewed.runFiles files settings fs
  let t' : Session := { t with output := t.output.flush }
  let u := t'.renewed.runFiles files settings gs
  have counts : Adds s.renewed (s.renewed.trials files settings fs) t :=
    runFiles_adds files settings rfl fs
  have unlimited' : t.output.flushLimit = none := counts.flushLimit.trans unlimited
  have first : s.renewed.runAll files settings fs = (.ok t.toSummary, t') :=
    runAll_of_unlimited files settings unlimited fs
  have second : t'.renewed.runAll files settings gs =
      (.ok u.toSummary, { u with output := u.output.flush }) :=
    runAll_of_unlimited files settings ((Output.flush_flushLimit _).trans unlimited') gs
  have whole := runAll_of_unlimited files settings unlimited (fs ++ gs)
  rw [runFiles_append files settings (s := s.renewed) rfl] at whole
  dsimp only
  rw [first, second, whole]
  refine ⟨t.toSummary, u.toSummary, rfl, rfl, ?_, ?_, ?_, counts.failures⟩
  · intro ended
    rw [if_pos (Option.isSome_iff_ne_none.mpr ended)]
  · intro going
    have going : t.ending = none := going
    obtain ⟨same, added⟩ := runFiles_resumed files settings going unlimited' gs
    have goes : ¬ t.ending.isSome = true := by simp [going]
    rw [if_neg goes]
    exact ⟨congrArg Except.ok added, same.console.journal.symm,
      same.console.output.flush.written.symm, same.diagnostics.symm, same.console.input.symm⟩
  · exact Summary.accounts_of_tried counts.summary (runFiles_tried files settings rfl fs)

/-- A file that can be read is tried by running it on a fresh tape. -/
theorem attempt_of_run {path : String} {p : Program} {tape : Tape} {outcome : Outcome}
    {s : Session} {m : Machine} (silent : settings.listTokens = false)
    (loaded : Script.load files settings path s.journal = (.ok p, s.journal))
    (made : Tape.ofCapacity settings.tapeSize settings.stomach = .ok tape)
    (ran : (Machine.ofTape tape s.toConsole).run p = (.ok outcome, m)) :
    s.attempt files settings path = (.ok outcome, { s with toConsole := m.toConsole }) := by
  simp only [attempt, loaded, silent, perform, Script.run, made, ran]
  rfl

/-- A meal, and a line that nobody has eaten for. -/
def pantry : FileSystem
  | "meal" => .contents [43]
  | "fast" => .contents [10]
  | _ => .missing

/-- A session that had its meal and then looked for a file in vain. -/
def disappointed : Session where
  input := { rest := [] }
  output := { flushes := #[0] }
  journal := { remarks := #[.failure "nowhere" (.notFound "nowhere")] }
  completed := 1
  failed := 1

theorem pantry_meal :
    runFiles pantry { tapeSize := 2 } { input := { rest := [] } } ["meal", "nowhere"] =
      disappointed := by
  let s : Session := { input := { rest := [] } }
  let p : Program := #[⟨.increment, "+", ⟨1, 1⟩⟩]
  have scanned : Scanner.collect #[] .start (Text.ofLatin1 [43]).toList = p := by decide +kernel
  have loaded : Script.load pantry { tapeSize := 2 } "meal" s.journal = (.ok p, s.journal) := by
    rw [← scanned]
    rfl
  have reached : ((Machine.ofTape ⟨#[0, 0], 0, 0⟩ s.toConsole).started p).after p 1 = _ := rfl
  have ran := attempt_of_run pantry _ rfl loaded rfl (Machine.run_of_finished reached rfl)
  have meal := (runFile_eq pantry _ s "meal").trans (congrArg (conclude "meal") ran)
  rw [runFiles, meal]
  rfl

theorem pantry_fast :
    let s : Session := { disappointed with output := disappointed.output.flush }
    (s.renewed.runFiles pantry { tapeSize := 2 } ["fast"]).toSummary = ⟨1, 0, some .starved⟩ := by
  let s : Session := { disappointed with output := disappointed.output.flush }
  let p : Program := #[⟨.newline, "\n", ⟨1, 1⟩⟩]
  have scanned : Scanner.collect #[] .start (Text.ofLatin1 [10]).toList = p := by decide +kernel
  have loaded : Script.load pantry { tapeSize := 2 } "fast" s.renewed.journal =
      (.ok p, s.renewed.journal) := by
    rw [← scanned]
    rfl
  have reached :
      ((Machine.ofTape ⟨#[0, 0], 0, 0⟩ s.renewed.toConsole).started p).after p 0 = _ := rfl
  have ran := attempt_of_run pantry _ rfl loaded rfl (Machine.run_of_finished reached rfl)
  have fast := (runFile_eq pantry _ s.renewed "fast").trans (congrArg (conclude "fast") ran)
  dsimp only
  rw [runFiles, fast]
  rfl

/-- The missing file is reported, and the session goes on until it starves. -/
theorem sessions_compose_pantry :
    let settings : Settings := { tapeSize := 2 }
    let s : Session := { input := { rest := [] } }
    let first := s.renewed.runAll pantry settings ["meal", "nowhere"]
    let second := first.2.renewed.runAll pantry settings ["fast"]
    let whole := s.renewed.runAll pantry settings (["meal", "nowhere"] ++ ["fast"])
    first.1 = .ok ⟨1, 1, none⟩ ∧ second.1 = .ok ⟨1, 0, some .starved⟩ ∧
      whole.1 = .ok ⟨2, 1, some .starved⟩ ∧
      whole.2.journal = second.2.journal ∧
      first.2.journal.failures = [("nowhere", .notFound "nowhere")] ∧
      whole.2.output.written = second.2.output.written := by
  let settings : Settings := { tapeSize := 2 }
  let s : Session := { input := { rest := [] } }
  let s' : Session := { disappointed with output := disappointed.output.flush }
  have first : s.renewed.runAll pantry settings ["meal", "nowhere"] =
      (.ok disappointed.toSummary, s') := by
    rw [runAll_of_unlimited pantry settings rfl, renewed, pantry_meal]
  have second : (s'.renewed.runAll pantry settings ["fast"]).1 = .ok ⟨1, 0, some .starved⟩ := by
    rw [runAll_of_unlimited pantry settings rfl, pantry_fast]
  obtain ⟨a, b, one, two, -, joined, -⟩ :=
    sessions_compose pantry settings ["meal", "nowhere"] ["fast"] s rfl
  rw [first] at one two joined
  cases one
  cases two.symm.trans second
  obtain ⟨counts, journal, written, -⟩ := joined rfl
  dsimp only
  rw [first]
  exact ⟨rfl, second, counts, journal, rfl, written⟩

end Session

end HungryTape
