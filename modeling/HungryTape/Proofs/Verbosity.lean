import HungryTape.Proofs.Acceptance
import HungryTape.Proofs.Items
import Mathlib.Algebra.Order.BigOperators.Group.List

namespace HungryTape

/-- The letters that an item has for the verbosity. -/
def Item.steps : Item → Nat
  | louder steps _ => steps
  | _ => 0

namespace Settings

theorem verbosity_enter {s : Settings} (bounded : s.verbosity ≤ 255) (i : Item) :
    (s.enter i).verbosity = min 255 (s.verbosity + i.steps % 256) := by
  cases i with
  | louder steps given => rfl
  | file | tokens | tapeSize | stomach | sourceLimit => exact (Nat.min_eq_right bounded).symm

/-- The total stops at its bound once, however the letters are spread over the items. -/
theorem verbosity_foldl {s : Settings} (bounded : s.verbosity ≤ 255) (items : List Item) :
    (items.foldl enter s).verbosity =
      min 255 (s.verbosity + (items.map fun i => i.steps % 256).sum) := by
  induction items generalizing s with
  | nil => simpa using bounded
  | cons i items ih =>
    have first := verbosity_enter bounded i
    rw [List.foldl_cons, ih (by omega), first, List.map_cons, List.sum_cons]
    omega

theorem rank_level (s : Settings) : s.level.rank = min 5 (2 + s.verbosity) := by
  unfold level
  generalize s.verbosity = v
  match v with
  | 0 | 1 | 2 => rfl
  | v + 3 =>
    change 5 = min 5 (2 + (v + 3))
    omega

end Settings

theorem sum_steps_mod_le (items : List Item) :
    (items.map fun i => i.steps % 256).sum ≤ (items.map Item.steps).sum :=
  List.sum_le_sum fun i _ => Nat.mod_le i.steps 256

/-- Letters are lost only from a flag that has 256 of them. -/
theorem sum_steps_mod_eq_iff (items : List Item) :
    (items.map fun i => i.steps % 256).sum = (items.map Item.steps).sum ↔
      ∀ i ∈ items, i.steps < 256 := by
  induction items with
  | nil => simp
  | cons i items ih =>
    have := sum_steps_mod_le items
    simp only [List.map_cons, List.sum_cons, List.forall_mem_cons, ← ih]
    omega

namespace Invocation

theorem verbosity_of_run {items : List Item} {names : Option (List String)} {s : Settings}
    {files : List String} (accepted : parse (arguments items names) = .ok (run s files)) :
    s.verbosity = min 255 (items.map fun i => i.steps % 256).sum := by
  rw [parse_arguments] at accepted
  obtain ⟨rfl, -⟩ := finish_run accepted
  rw [Settings.verbosity_foldl (Nat.zero_le 255), Nat.zero_add]

/-- The verbosity of an accepted command line, however it is cut into items. It is the number of all
letters just where no flag has 256 of them or enough are left to reach the bound. A command line
with more items is never quieter, nor is one with more letters in flags that are short enough. -/
theorem verbosity_wraps_by_flag {args files : List String} {s : Settings}
    (accepted : parse args = .ok (run s files)) :
    (∃ items names, args = arguments items names) ∧
    ∀ items names, args = arguments items names →
      s.verbosity = min 255 (items.map fun i => i.steps % 256).sum ∧
      (s.verbosity = min 255 (items.map Item.steps).sum ↔
        (∀ i ∈ items, i.steps < 256) ∨ 255 ≤ (items.map fun i => i.steps % 256).sum) ∧
      ∀ more names' s' files', parse (arguments more names') = .ok (run s' files') →
        items.Sublist more ∨ (∀ i ∈ more, i.steps < 256) ∧
            (items.map Item.steps).sum ≤ (more.map Item.steps).sum →
          s.level.rank ≤ s'.level.rank := by
  refine ⟨items_of_run accepted, ?_⟩
  rintro items names rfl
  have counted := verbosity_of_run accepted
  have fewer := sum_steps_mod_le items
  refine ⟨counted, ?_, ?_⟩
  · rw [counted, ← sum_steps_mod_eq_iff]
    omega
  · intro more names' s' files' accepted' added
    have counted' := verbosity_of_run accepted'
    have least : (items.map fun i => i.steps % 256).sum ≤
        (more.map fun i => i.steps % 256).sum := by
      rcases added with further | ⟨short, letters⟩
      · exact (further.map _).sum_le_sum (by simp)
      · rw [(sum_steps_mod_eq_iff more).mpr short]
        exact Nat.le_trans fewer letters
    rw [Settings.rank_level, Settings.rank_level]
    omega

/-- Of the 257 letters in the second flag one is left. -/
theorem verbosity_wraps_by_flag_two_flags :
    let items : List Item := [.louder 2 (by decide), .file "x" (by decide), .louder 257 (by decide)]
    parse (arguments items (some ["-v"])) = .ok (run { verbosity := 3 } ["x", "-v"]) ∧
      ¬ (3 = min 255 (items.map Item.steps).sum) ∧
      ∀ more names s files, parse (arguments more names) = .ok (run s files) →
        items.Sublist more → Level.trace.rank ≤ s.level.rank := by
  intro items
  have accepted : parse (arguments items (some ["-v"])) =
      .ok (run { verbosity := 3 } ["x", "-v"]) := by
    rw [parse_arguments]
    rfl
  obtain ⟨-, -, louder⟩ := (verbosity_wraps_by_flag accepted).2 items (some ["-v"]) rfl
  refine ⟨accepted, by decide, ?_⟩
  intro more names s files accepted' further
  exact louder more names s files accepted' (.inl further)

/-- The 256th letter of a flag takes all of them away. -/
theorem long_flag_is_silent :
    let items (steps : Nat) (given : 0 < steps) : List Item :=
      [.louder steps given, .file "x" (by decide)]
    arguments (items 256 (by decide)) none = [Argument.flag 256, "x"] ∧
      parse (arguments (items 255 (by decide)) none) = .ok (run { verbosity := 255 } ["x"]) ∧
      parse (arguments (items 256 (by decide)) none) = .ok (run { verbosity := 0 } ["x"]) ∧
      0 ≠ min 255 ((items 256 (by decide)).map Item.steps).sum ∧
      Settings.level { verbosity := 255 } = .trace ∧ Settings.level { verbosity := 0 } = .warn := by
  intro items
  rw [parse_arguments, parse_arguments]
  exact ⟨rfl, rfl, rfl, by decide, rfl, rfl⟩

end Invocation

end HungryTape
