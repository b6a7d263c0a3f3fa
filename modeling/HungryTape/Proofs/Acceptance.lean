import HungryTape.Invocation
import HungryTape.Proofs.Sessions

namespace HungryTape

/-- What every option keeps. The stomach may be off the tape until the last option is read. -/
structure Settings.Positive (s : Settings) : Prop where
  tapeSize : 0 < s.tapeSize
  sourceLimit : s.sourceLimit ≠ some 0

theorem Settings.positive_default : Settings.Positive {} :=
  ⟨by decide, by decide⟩

theorem positive?_pos {text : String} {n : Nat} (h : positive? text = some n) : 0 < n := by
  simpa using (Option.filter_eq_some_iff.mp h).2

theorem limit?_ne_zero {text : String} {limit : Option Nat} (h : limit? text = some limit) :
    limit ≠ some 0 := by
  unfold limit? at h
  split at h
  · cases h
    nofun
  · obtain ⟨n, positive, rfl⟩ := Option.map_eq_some_iff.mp h
    have := positive?_pos positive
    simp
    omega

namespace Invocation

theorem finish_run {settings settings' : Settings} {files files' : List String}
    (h : finish settings files = .ok (run settings' files')) :
    settings' = settings ∧ files' = files ∧ files ≠ [] ∧ settings.stomach < settings.tapeSize := by
  unfold finish at h
  split at h
  · cases h
  · rename_i asked
    split at h
    · rename_i inside
      cases h
      exact ⟨rfl, rfl, by simpa using asked, inside⟩
    · cases h

/-- The settings that a command line is accepted with are positive, and the stomach is on the
tape. -/
theorem parseFrom_run {settings settings' : Settings} {files files' args : List String}
    (positive : settings.Positive)
    (h : parseFrom settings files args = .ok (run settings' files')) :
    settings'.Positive ∧ files' ≠ [] ∧ settings'.stomach < settings'.tapeSize := by
  fun_induction parseFrom settings files args with
  -- nothing is left, or only files are
  | case1 settings files =>
    obtain ⟨rfl, rfl, asked, inside⟩ := finish_run h
    exact ⟨positive, asked, inside⟩
  | case5 settings files arg rest =>
    obtain ⟨rfl, rfl, asked, inside⟩ := finish_run h
    exact ⟨positive, asked, inside⟩
  -- another file, and options that stand alone
  | case7 settings files arg rest _ ih => exact ih positive h
  | case3 settings files arg rest _ ih => exact ih ⟨positive.tapeSize, positive.sourceLimit⟩ h
  | case4 settings files arg rest steps _ ih =>
    exact ih ⟨positive.tapeSize, positive.sourceLimit⟩ h
  -- options with a value that could be read
  | case9 settings files arg _ value rest tapeSize given ih =>
    exact ih ⟨positive?_pos given, positive.sourceLimit⟩ h
  | case12 settings files arg _ value rest stomach _ ih =>
    exact ih ⟨positive.tapeSize, positive.sourceLimit⟩ h
  | case15 settings files arg _ value rest sourceLimit given ih =>
    exact ih ⟨positive.tapeSize, limit?_ne_zero given⟩ h
  | case2 | case6 | case8 | case10 | case11 | case13 | case14 | case16 => cases h

end Invocation

theorem Script.load_ne_badTape (files : FileSystem) (settings : Settings) (path : String)
    (j : Journal) (e : CellOutOfRange) :
    (Script.load files settings path j).1 ≠ .error (.badTape e) := by
  unfold Script.load
  split
  · nofun
  · nofun
  · unfold Script.ofSource
    split <;> nofun

namespace Session

variable (files : FileSystem) {settings : Settings} (inside : settings.stomach < settings.tapeSize)

include inside

theorem perform_ne_badTape (p : Program) (s : Session) (e : CellOutOfRange) :
    (s.perform settings p).1 ≠ .error (.badTape e) := by
  have made : Tape.ofCapacity settings.tapeSize settings.stomach = .ok _ := if_pos inside
  simp only [perform, Script.run, made]
  generalize ((Machine.ofTape _ s.toConsole).run p).1 = result
  intro failed
  cases result <;> cases failed

theorem attempt_ne_badTape (path : String) (s : Session) (e : CellOutOfRange) :
    (s.attempt files settings path).1 ≠ .error (.badTape e) := by
  have readable := Script.load_ne_badTape files settings path s.journal e
  unfold attempt
  generalize Script.load files settings path s.journal = r at readable
  obtain ⟨found, journal⟩ := r
  cases found with
  | error f =>
    rintro ⟨⟩
    exact readable rfl
  | ok p =>
    dsimp only
    split
    · split
      · exact perform_ne_badTape inside p _ e
      · nofun
    · exact perform_ne_badTape inside p _ e

theorem trials_ne_badTape (paths : List String) (s : Session) (e : CellOutOfRange) :
    ∀ t ∈ s.trials files settings paths, t.result ≠ .error (.badTape e) := by
  induction paths generalizing s with
  | nil => nofun
  | cons path paths ih =>
    have first : (s.trial files settings path).result ≠ .error (.badTape e) :=
      attempt_ne_badTape files inside path (s.note (.running path)) e
    intro t tried
    rw [trials] at tried
    split at tried
    · rw [List.mem_singleton.mp tried]
      exact first
    · rcases List.mem_cons.mp tried with rfl | later
      · exact first
      · exact ih (s.runFile files settings path) t later

end Session

/-- A command line that is accepted names at least one file, and what it asks for is a tape with the
stomach on it and a limit that some source can meet. So whatever the files and the streams are, no
failure that is reported is that of a tape. -/
theorem Invocation.accepted_without_tape_failures {args paths : List String} {settings : Settings}
    (accepted : parse args = .ok (run settings paths)) :
    paths ≠ [] ∧ 1 ≤ settings.tapeSize ∧ settings.stomach < settings.tapeSize ∧
    settings.sourceLimit ≠ some 0 ∧
    ∀ (files : FileSystem) (s : Session), ∃ reported,
      (s.renewed.runAll files settings paths).2.journal.failures =
        s.journal.failures ++ reported ∧
      ∀ path e, (path, Failure.badTape e) ∉ reported := by
  obtain ⟨positive, asked, inside⟩ := parseFrom_run Settings.positive_default accepted
  refine ⟨asked, positive.tapeSize, inside, positive.sourceLimit, ?_⟩
  intro files s
  have added := Session.runFiles_adds files settings (s := s.renewed) rfl paths
  refine ⟨_, added.failures, ?_⟩
  intro path e reported
  obtain ⟨t, tried, failed⟩ := List.mem_filterMap.mp reported
  apply Session.trials_ne_badTape files inside paths s.renewed e t tried
  unfold Trial.failure? at failed
  split at failed <;> simp_all

/-- The stomach is off the tape until the second size is read, and the file is then looked for in
vain. -/
theorem Invocation.accepted_without_tape_failures_late_size :
    let settings : Settings := { tapeSize := 12, stomach := 9, sourceLimit := none }
    let args := ["--stomach", "9", "--tape-size", "3", "nowhere", "--source-limit", "none",
      "--tape-size", "12"]
    let s : Session := { input := { rest := [] } }
    parse args = .ok (run settings ["nowhere"]) ∧
      (s.renewed.runAll (fun _ => .missing) settings ["nowhere"]).2.journal.failures =
        [("nowhere", .notFound "nowhere")] ∧
      ∀ path e, (path, Failure.badTape e) ∉
        (s.renewed.runAll (fun _ => .missing) settings ["nowhere"]).2.journal.failures := by
  intro settings args s
  have accepted : parse args = .ok (run settings ["nowhere"]) := rfl
  obtain ⟨-, -, -, -, reports⟩ := accepted_without_tape_failures accepted
  obtain ⟨reported, failures, untaped⟩ := reports (fun _ => .missing) s
  refine ⟨accepted, rfl, ?_⟩
  rw [failures]
  exact untaped

end HungryTape
