import HungryTape.Proofs.Consoles
import HungryTape.Session

/-!
A session is the row of its trials. Each file is tried once and in order, and the first one that
ends the session is the last one that is tried. What a session counts and reports, and the exit
code, can be read off this row.
-/

namespace HungryTape

/-- One file of a session and what came of it. -/
structure Trial where
  path : String
  result : Except Failure Outcome

namespace Trial

def failure? (t : Trial) : Option (String × Failure) :=
  match t.result with
  | .ok _ => none
  | .error e => some (t.path, e)

/-- The outcome that ends the session, if the trial has one. -/
def ending? (t : Trial) : Option Outcome :=
  match t.result with
  | .ok .completed | .error _ => none
  | .ok ending => some ending

theorem ending?_eq_some_iff {t : Trial} {o : Outcome} :
    t.ending? = some o ↔ t.result = .ok o ∧ o ≠ .completed := by
  obtain ⟨path, e | outcome⟩ := t
  · simp [ending?]
  · cases outcome <;> cases o <;> simp [ending?]

def LastStarved (tried : List Trial) : Prop :=
  ∃ path, tried.getLast? = some ⟨path, .ok .starved⟩

def SomeFailed (tried : List Trial) : Prop :=
  ∃ t ∈ tried, ∃ e, t.result = .error e

theorem length_failures_pos_iff {tried : List Trial} :
    0 < (tried.filterMap failure?).length ↔ SomeFailed tried := by
  rw [List.length_pos_iff_exists_mem]
  constructor
  · rintro ⟨⟨path, e⟩, reported⟩
    obtain ⟨t, mem, failed⟩ := List.mem_filterMap.mp reported
    refine ⟨t, mem, e, ?_⟩
    unfold failure? at failed
    split at failed <;> simp_all
  · rintro ⟨t, mem, e, failed⟩
    exact ⟨(t.path, e), List.mem_filterMap.mpr ⟨t, mem, by simp [failure?, failed]⟩⟩

end Trial

/-- All files are tried, or those up to the first one that ends the session. -/
inductive Tried (paths : List String) : Option Outcome → List Trial → Prop where
  | all {tried : List Trial} (each : tried.map Trial.path = paths)
      (going : ∀ t ∈ tried, t.ending? = none) : Tried paths none tried
  | ended {o : Outcome} (before : List Trial) (t : Trial) (rest : List String)
      (each : before.map Trial.path ++ t.path :: rest = paths)
      (going : ∀ t ∈ before, t.ending? = none) (ends : t.ending? = some o) :
      Tried paths (some o) (before ++ [t])

section

variable {paths : List String} {ending : Option Outcome} {tried : List Trial}

theorem Tried.cons (h : Tried paths ending tried) (t : Trial) (goes : t.ending? = none) :
    Tried (t.path :: paths) ending (t :: tried) := by
  cases h with
  | all each going =>
    exact .all (by rw [List.map_cons, each]) (List.forall_mem_cons.mpr ⟨goes, going⟩)
  | ended before last rest each going ends =>
    exact .ended (t :: before) last rest (by rw [List.map_cons, List.cons_append, each])
      (List.forall_mem_cons.mpr ⟨goes, going⟩) ends

theorem Tried.ending_eq_some_iff (h : Tried paths ending tried) (o : Outcome) :
    ending = some o ↔ o ≠ .completed ∧ ∃ path, tried.getLast? = some ⟨path, .ok o⟩ := by
  cases h with
  | all each going =>
    simp only [reduceCtorEq, false_iff]
    rintro ⟨ends, path, last⟩
    have goes := going _ (List.mem_of_getLast? last)
    rw [Trial.ending?_eq_some_iff.mpr ⟨rfl, ends⟩] at goes
    cases goes
  | ended before t rest each going ends =>
    obtain ⟨result, early⟩ := Trial.ending?_eq_some_iff.mp ends
    rw [List.getLast?_concat]
    constructor
    · rintro ⟨⟩
      exact ⟨early, t.path, by rw [← result]⟩
    · rintro ⟨-, path, last⟩
      cases last
      cases result
      rfl

theorem Tried.complete (h : Tried paths ending tried) (goes : ending = none) :
    tried.map Trial.path = paths := by
  cases h with
  | all each going => exact each
  | ended before t rest each going ends => cases goes

theorem Tried.inOrder (h : Tried paths ending tried) : tried.map Trial.path <+: paths := by
  cases h with
  | all each going => exact each ▸ List.prefix_refl _
  | ended before t rest each going ends =>
    refine ⟨rest, ?_⟩
    rw [← each, List.map_append, List.append_assoc]
    rfl

theorem Tried.going_dropLast (h : Tried paths ending tried) :
    ∀ t ∈ tried.dropLast, t.ending? = none := by
  cases h with
  | all each going => exact fun t mem => going t ((List.dropLast_prefix tried).subset mem)
  | ended before t rest each going ends => rwa [List.dropLast_concat]

end

namespace Summary

/-- The summary when one more file has been tried. -/
def tally (s : Summary) (t : Trial) : Summary :=
  match t.result with
  | .ok .completed => { s with completed := s.completed + 1 }
  | .ok ending => { s with completed := s.completed + 1, ending := some ending }
  | .error _ => { s with failed := s.failed + 1 }

theorem counted_tally (s : Summary) (t : Trial) :
    (s.tally t).completed + (s.tally t).failed = s.completed + s.failed + 1 := by
  obtain ⟨path, e | outcome⟩ := t
  · rfl
  · cases outcome <;> exact Nat.add_right_comm ..

theorem failed_tally (s : Summary) (t : Trial) :
    (s.tally t).failed = s.failed + ([t].filterMap Trial.failure?).length := by
  obtain ⟨path, e | outcome⟩ := t
  · rfl
  · cases outcome <;> rfl

theorem counted_foldl (s : Summary) (tried : List Trial) :
    (tried.foldl tally s).completed + (tried.foldl tally s).failed =
      s.completed + s.failed + tried.length := by
  induction tried generalizing s with
  | nil => rfl
  | cons t tried ih =>
    rw [List.foldl_cons, ih, counted_tally, List.length_cons]
    omega

theorem failed_foldl (s : Summary) (tried : List Trial) :
    (tried.foldl tally s).failed = s.failed + (tried.filterMap Trial.failure?).length := by
  induction tried generalizing s with
  | nil => rfl
  | cons t tried ih =>
    rw [List.foldl_cons, ih, failed_tally, Nat.add_assoc, ← List.length_append,
      ← List.filterMap_append, List.singleton_append]

/-- The summary of one session and then another. -/
def followedBy (s r : Summary) : Summary :=
  ⟨s.completed + r.completed, s.failed + r.failed, r.ending⟩

theorem tally_followedBy (s r : Summary) (t : Trial) :
    (s.followedBy r).tally t = s.followedBy (r.tally t) := by
  obtain ⟨path, e | outcome⟩ := t
  · rfl
  · cases outcome <;> rfl

/-- A session that goes on counts what a new one would count, on top of what it has. -/
theorem foldl_followedBy (s r : Summary) (tried : List Trial) :
    tried.foldl tally (s.followedBy r) = s.followedBy (tried.foldl tally r) := by
  induction tried generalizing r with
  | nil => rfl
  | cons t tried ih => rw [List.foldl_cons, List.foldl_cons, tally_followedBy, ih]

theorem followedBy_empty {s : Summary} (going : s.ending = none) : s.followedBy {} = s := by
  obtain ⟨completed, failed, ending⟩ := s
  cases going
  rfl

theorem exitCode_eq_one_iff (s : Summary) : s.exitCode = 1 ↔ s.ending = some .starved := by
  unfold exitCode exitStarved exitError exitSuccess
  grind

theorem exitCode_eq_two_iff (s : Summary) :
    s.exitCode = 2 ↔ s.ending ≠ some .starved ∧ 0 < s.failed := by
  unfold exitCode exitStarved exitError exitSuccess
  grind

theorem exitCode_eq_zero_iff (s : Summary) :
    s.exitCode = 0 ↔ s.ending ≠ some .starved ∧ ¬ 0 < s.failed := by
  unfold exitCode exitStarved exitError exitSuccess
  grind

/-- What a summary says about the files that a session was asked for and about those it tried. -/
structure Accounts (summary : Summary) (paths : List String) (tried : List Trial) : Prop where
  inOrder : tried.map Trial.path <+: paths
  complete : summary.ending = none → tried.map Trial.path = paths
  counted : summary.completed + summary.failed = tried.length
  failed : summary.failed = (tried.filterMap Trial.failure?).length
  ending : ∀ o, summary.ending = some o ↔
    o ≠ .completed ∧ ∃ path, tried.getLast? = some ⟨path, .ok o⟩
  going : ∀ t ∈ tried.dropLast, t.ending? = none
  exitStarved : summary.exitCode = 1 ↔ Trial.LastStarved tried
  exitError : summary.exitCode = 2 ↔ ¬ Trial.LastStarved tried ∧ Trial.SomeFailed tried
  exitSuccess : summary.exitCode = 0 ↔ ¬ Trial.LastStarved tried ∧ ¬ Trial.SomeFailed tried

/-- The counts of a session that starts from nothing, and the ending of its last trial. -/
theorem accounts_of_tried {summary : Summary} {paths : List String} {tried : List Trial}
    (counts : summary = tried.foldl tally {}) (h : Tried paths summary.ending tried) :
    summary.Accounts paths tried := by
  have failed : summary.failed = (tried.filterMap Trial.failure?).length := by
    rw [counts, failed_foldl]
    exact Nat.zero_add _
  have starved : summary.ending = some .starved ↔ Trial.LastStarved tried := by
    rw [h.ending_eq_some_iff, and_iff_right (by decide), Trial.LastStarved]
  have errors : 0 < summary.failed ↔ Trial.SomeFailed tried := by
    rw [failed, Trial.length_failures_pos_iff]
  exact {
    inOrder := h.inOrder
    complete := h.complete
    counted := by
      rw [counts, counted_foldl]
      exact Nat.zero_add _
    failed
    ending := h.ending_eq_some_iff
    going := h.going_dropLast
    exitStarved := by rw [exitCode_eq_one_iff, starved]
    exitError := by rw [exitCode_eq_two_iff, ne_eq, starved, errors]
    exitSuccess := by rw [exitCode_eq_zero_iff, ne_eq, starved, errors] }

end Summary

namespace Journal

@[simp]
theorem failures_note (j : Journal) (e : Event) : (j.note e).failures = j.failures := by
  unfold note
  split <;> simp [failures]

@[simp]
theorem failures_add_listing (j : Journal) (bytes : List UInt8) :
    (j.add (.listing bytes)).failures = j.failures := by
  simp [failures, add]

/-- The last remark about a file. -/
def conclude (j : Journal) (t : Trial) : Journal :=
  match t.result with
  | .ok .completed => j.note (.completed t.path)
  | .ok ending => j.note (.ended t.path ending)
  | .error e => j.add (.failure t.path e)

theorem failures_conclude (j : Journal) (t : Trial) :
    (j.conclude t).failures = j.failures ++ [t].filterMap Trial.failure? := by
  obtain ⟨path, e | outcome⟩ := t
  · simp [conclude, Trial.failure?, failures, add]
  · cases outcome <;> simp [conclude, Trial.failure?]

end Journal

namespace Console

theorem Becomes.failures {c d : Console} (h : c.Becomes d) :
    d.journal.failures = c.journal.failures := by
  induction h with
  | refl => rfl
  | note _ e ih => exact (Journal.failures_note _ e).trans ih
  | write _ _ ih | flush _ ih | take _ _ ih => exact ih

theorem Becomes.flushLimit {c d : Console} (h : c.Becomes d) :
    d.output.flushLimit = c.output.flushLimit := by
  induction h with
  | refl => rfl
  | note _ _ ih | write _ _ ih | take _ _ ih => exact ih
  | flush _ ih => exact (Output.flush_flushLimit _).trans ih

end Console

theorem Script.run_becomes (settings : Settings) (p : Program) (c : Console) :
    c.Becomes (Script.run settings p c).2 := by
  unfold Script.run
  split
  · exact .refl
  · rename_i tape _
    exact Machine.run_becomes p (Machine.ofTape tape c)

theorem Script.load_failures (files : FileSystem) (settings : Settings) (path : String)
    (j : Journal) : (Script.load files settings path j).2.failures = j.failures := by
  unfold Script.load
  split
  · rfl
  · rfl
  · unfold Script.ofSource
    split <;> simp

namespace Session

variable (files : FileSystem) (settings : Settings)

def trial (s : Session) (path : String) : Trial :=
  ⟨path, ((s.note (.running path)).attempt files settings path).1⟩

/-- The files that a session tries. -/
def trials (s : Session) : List String → List Trial
  | [] => []
  | path :: paths =>
    let t := s.trial files settings path
    if t.ending?.isSome then [t]
    else t :: trials (s.runFile files settings path) paths

/-- What a session does not see of a file while it is tried. -/
structure Quiet (s s' : Session) : Prop where
  summary : s'.toSummary = s.toSummary
  failures : s'.journal.failures = s.journal.failures
  flushLimit : s'.output.flushLimit = s.output.flushLimit

theorem perform_quiet (p : Program) (s : Session) : Quiet s (s.perform settings p).2 := by
  have becomes := Script.run_becomes settings p s.toConsole
  exact ⟨rfl, becomes.failures, becomes.flushLimit⟩

theorem attempt_quiet (path : String) (s : Session) :
    Quiet s (s.attempt files settings path).2 := by
  have loaded := Script.load_failures files settings path s.journal
  unfold attempt
  generalize Script.load files settings path s.journal = r at loaded
  obtain ⟨found, journal⟩ := r
  have loaded : journal.failures = s.journal.failures := loaded
  cases found with
  | error e => exact ⟨rfl, loaded, rfl⟩
  | ok p =>
    dsimp only
    split
    · split
      · obtain ⟨summary, failures, flushLimit⟩ :=
          perform_quiet settings p ({ s with journal }.list (announce path p))
        exact ⟨summary, failures.trans (by simpa [list] using loaded), flushLimit⟩
      · exact ⟨rfl, by simpa [list] using loaded, rfl⟩
    · obtain ⟨summary, failures, flushLimit⟩ := perform_quiet settings p { s with journal }
      exact ⟨summary, failures.trans loaded, flushLimit⟩

/-- The session takes note of what came of a file. -/
def conclude (path : String) (r : Except Failure Outcome × Session) : Session :=
  { r.2 with
    toSummary := r.2.toSummary.tally ⟨path, r.1⟩
    journal := r.2.journal.conclude ⟨path, r.1⟩ }

theorem runFile_eq (s : Session) (path : String) :
    s.runFile files settings path =
      conclude path ((s.note (.running path)).attempt files settings path) := by
  unfold runFile
  generalize (s.note (.running path)).attempt files settings path = r
  obtain ⟨e | outcome, s'⟩ := r
  · rfl
  · cases outcome <;> rfl

/-- What a row of trials adds to a session. -/
structure Adds (s : Session) (tried : List Trial) (s' : Session) : Prop where
  summary : s'.toSummary = tried.foldl .tally s.toSummary
  failures : s'.journal.failures = s.journal.failures ++ tried.filterMap Trial.failure?
  flushLimit : s'.output.flushLimit = s.output.flushLimit

theorem Adds.trans {s s' s'' : Session} {tried later : List Trial} (h : Adds s tried s')
    (h' : Adds s' later s'') : Adds s (tried ++ later) s'' where
  summary := by rw [h'.summary, h.summary, List.foldl_append]
  failures := by rw [h'.failures, h.failures, List.filterMap_append, List.append_assoc]
  flushLimit := h'.flushLimit.trans h.flushLimit

theorem runFile_adds (s : Session) (path : String) :
    Adds s [s.trial files settings path] (s.runFile files settings path) := by
  obtain ⟨summary, failures, flushLimit⟩ :=
    attempt_quiet files settings path (s.note (.running path))
  rw [runFile_eq]
  refine ⟨?_, ?_, flushLimit⟩
  · rw [conclude, summary]
    rfl
  · rw [conclude, Journal.failures_conclude, failures, note, Journal.failures_note]
    rfl

theorem ending_runFile {s : Session} (going : s.ending = none) (path : String) :
    (s.runFile files settings path).ending = (s.trial files settings path).ending? := by
  have ending := congrArg Summary.ending (runFile_adds files settings s path).summary
  rw [ending]
  generalize s.trial files settings path = t
  obtain ⟨path, e | outcome⟩ := t
  · exact going
  · cases outcome <;> first | exact going | rfl

/-- The session goes on as long as no trial ends it. -/
theorem runFiles_cons {s : Session} (going : s.ending = none) (path : String)
    (paths : List String) :
    s.runFiles files settings (path :: paths) =
      if (s.trial files settings path).ending?.isSome then s.runFile files settings path
      else (s.runFile files settings path).runFiles files settings paths := by
  rw [← ending_runFile files settings going, runFiles]

theorem runFiles_adds {s : Session} (going : s.ending = none) (paths : List String) :
    Adds s (s.trials files settings paths) (s.runFiles files settings paths) := by
  induction paths generalizing s with
  | nil => exact ⟨rfl, by simp [trials, runFiles], rfl⟩
  | cons path paths ih =>
    have first := runFile_adds files settings s path
    have ending := ending_runFile files settings going path
    rw [runFiles_cons files settings going, trials]
    split
    · exact first
    · rename_i goes
      have going : (s.runFile files settings path).ending = none := by
        rw [ending]
        simpa using goes
      exact first.trans (ih going)

theorem runFiles_append {s : Session} (going : s.ending = none) (paths more : List String) :
    s.runFiles files settings (paths ++ more) =
      if (s.runFiles files settings paths).ending.isSome then s.runFiles files settings paths
      else (s.runFiles files settings paths).runFiles files settings more := by
  induction paths generalizing s with
  | nil => simp [runFiles, going]
  | cons path paths ih =>
    have ending := ending_runFile files settings going path
    rw [List.cons_append, runFiles_cons files settings going, runFiles_cons files settings going]
    split
    · rename_i ends
      rw [ending, if_pos ends]
    · rename_i goes
      exact ih (by rw [ending]; simpa using goes)

theorem runFiles_tried {s : Session} (going : s.ending = none) (paths : List String) :
    Tried paths (s.runFiles files settings paths).ending (s.trials files settings paths) := by
  induction paths generalizing s with
  | nil =>
    rw [runFiles, going]
    exact .all rfl (by simp [trials])
  | cons path paths ih =>
    have ending := ending_runFile files settings going path
    rw [runFiles_cons files settings going, trials]
    cases goes : (s.trial files settings path).ending? with
    | some o =>
      simp only [Option.isSome_some, ↓reduceIte, ending, goes]
      exact .ended [] (s.trial files settings path) paths rfl (by simp) goes
    | none =>
      simp only [Option.isSome_none, Bool.false_eq_true, ↓reduceIte]
      exact (ih (ending.trans goes)).cons (s.trial files settings path) goes

end Session

end HungryTape
