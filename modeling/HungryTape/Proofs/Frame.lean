import HungryTape.Machine.Halting

namespace HungryTape

/-- The instructions that can go to another position by themselves. -/
def Kind.jumps : Kind → Bool
  | loopEnd | condStart | printLiteral => true
  | _ => false

def Kind.loops : Kind → Bool
  | newline | loopStart | loopEnd => true
  | _ => false

theorem Kind.of_arms {kind : Kind} (arms : kind.arms = true) :
    kind ≠ .comment ∧ kind.loops = true ∧ kind.jumps = false := by
  cases kind <;> simp [Kind.arms, loops, jumps] at arms ⊢

namespace Machine

structure Frame (kind : Kind) (m m' : Machine) : Prop where
  commented : m'.commented = (m.commented || kind = .comment)
  position : kind.jumps = false → m'.position = m.position
  loop : kind.loops = false → m'.loop = m.loop

/-- Most instructions work on the tape and the streams only. -/
structure InPlace (m m' : Machine) : Prop where
  commented : m'.commented = m.commented
  position : m'.position = m.position
  loop : m'.loop = m.loop

theorem InPlace.refl (m : Machine) : InPlace m m :=
  ⟨rfl, rfl, rfl⟩

theorem InPlace.frame {kind : Kind} {m m' : Machine} (h : InPlace m m')
    (live : kind ≠ .comment) : Frame kind m m' :=
  ⟨by simp [h.commented, live], fun _ => h.position, fun _ => h.loop⟩

theorem settle_inPlace {α : Type} {m : Machine} {decision : Except Fault α}
    {act : Machine → α → Machine} (acts : ∀ a, InPlace m (act m a)) :
    InPlace m (m.settle decision act).2 := by
  cases decision with
  | error f => exact .refl m
  | ok a => exact acts a

theorem store_inPlace (m : Machine) (v : Int) : InPlace m (m.store v) :=
  ⟨rfl, rfl, rfl⟩

theorem move_inPlace (p : Program) (t : Token) (d : Int) (m : Machine) :
    InPlace m (m.move p t d).2 :=
  settle_inPlace fun _ => ⟨rfl, rfl, rfl⟩

theorem adjust_inPlace (p : Program) (t : Token) (op : Operator) (m : Machine) :
    InPlace m (m.adjust p t op).2 :=
  settle_inPlace m.store_inPlace

theorem scale_inPlace (p : Program) (t : Token) (op : Operator) (m : Machine) :
    InPlace m (m.scale p t op).2 := by
  unfold scale
  split
  · exact .refl m
  · exact .refl m
  · exact settle_inPlace m.store_inPlace

theorem cleanse_inPlace (m : Machine) : InPlace m m.cleanse := by
  unfold cleanse
  split
  · exact m.store_inPlace 0
  · exact .refl m

theorem emit_inPlace (m : Machine) (bytes : List UInt8) : InPlace m (m.emit bytes).2 := by
  rw [emit_snd]
  exact ⟨rfl, rfl, rfl⟩

theorem read_inPlace (reader : Input → Reading × Input) (t : Token) (m : Machine) :
    InPlace m (m.read reader t).2 := by
  unfold read
  split
  · exact .refl m
  · dsimp only
    split <;> exact ⟨rfl, rfl, rfl⟩

theorem arm_frame (kind : Kind) (arms : kind.arms = true) (p : Program) (t : Token) (m : Machine) :
    Frame kind m (m.arm p t).2 := by
  obtain ⟨live, loops, -⟩ := Kind.of_arms arms
  unfold arm settle
  split <;> exact ⟨by simp [note, live], fun _ => rfl, by simp [loops]⟩

theorem openLoop_frame (p : Program) (t : Token) (m : Machine) :
    Frame .loopStart m (m.openLoop p t).2 := by
  unfold openLoop
  split
  · exact (InPlace.refl m).frame nofun
  · exact arm_frame .loopStart rfl p t m

theorem rewind_commented (l : Loop) (m : Machine) :
    (m.rewind l).2.commented = m.commented := by
  unfold rewind
  split <;> rfl

theorem closeLoop_frame (t : Token) (m : Machine) : Frame .loopEnd m (m.closeLoop t).2 := by
  refine ⟨?_, nofun, nofun⟩
  unfold closeLoop
  split
  · simp
  · split
    · simp
    · dsimp only
      split
      · split
        · simp [rewind_commented, store]
        · simp
      · simp [rewind_commented]

theorem branch_frame (p : Program) (t : Token) (m : Machine) :
    Frame .condStart m (m.branch p t).2 := by
  unfold branch
  split
  · exact (InPlace.refl m).frame nofun
  · dsimp only
    split <;> exact ⟨by simp [note], nofun, fun _ => rfl⟩

theorem branch_ok {p : Program} {t : Token} {m m' : Machine} {flow : Flow}
    (h : m.branch p t = (.ok flow, m')) :
    ∃ c, (m.cursor p).condition m.tape t.location = .ok c ∧
      (m.cursor p).find? c.resume = some m'.position := by
  unfold branch at h
  split at h
  · simp at h
  · rename_i c header
    dsimp only at h
    split at h
    · rename_i target found
      simp only [Prod.mk.injEq, Except.ok.injEq] at h
      obtain ⟨-, rfl⟩ := h
      exact ⟨c, header, found⟩
    · simp at h

theorem printLiteral_frame (p : Program) (m : Machine) :
    Frame .printLiteral m (m.printLiteral p).2 := by
  unfold printLiteral
  split
  · exact (InPlace.refl m).frame nofun
  · split
    · exact (emit_inPlace m _).frame nofun
    · rename_i next _ _
      obtain ⟨commented, -, loop⟩ := emit_inPlace m ((next.first?.map Text.charBytes).getD [])
      split <;>
        · rename_i emitted
          simp only [emitted] at commented loop
          exact ⟨by simp [advance, commented], nofun, fun _ => loop⟩

theorem dispatch_frame (p : Program) (t : Token) (m : Machine) :
    Frame t.kind m (m.dispatch p t).2 := by
  unfold dispatch
  cases t.kind
  case moveLeft | moveRight => exact (move_inPlace p t _ m).frame nofun
  case increment | decrement => exact (adjust_inPlace p t _ m).frame nofun
  case multiply | divide | modulo => exact (scale_inPlace p t _ m).frame nofun
  case printChar | printInt => exact (emit_inPlace m _).frame nofun
  case printLiteral => exact printLiteral_frame p m
  case readChar | readInt => exact (read_inPlace _ t m).frame nofun
  case cleanse => exact (cleanse_inPlace m).frame nofun
  case newline =>
    obtain ⟨commented, position, -⟩ :=
      arm_frame .newline rfl p t { m with tape := m.tape.feed }
    exact ⟨commented, position, nofun⟩
  case loopStart => exact openLoop_frame p t m
  case loopEnd => exact closeLoop_frame t m
  case condStart => exact branch_frame p t m
  all_goals exact ⟨by simp, fun _ => rfl, fun _ => rfl⟩

theorem frame_of_dispatch {p : Program} {t : Token} {m m' : Machine} {r : Except Fault Flow}
    (h : m.dispatch p t = (r, m')) : Frame t.kind m m' := by
  have frame := dispatch_frame p t m
  rwa [h] at frame

end Machine

end HungryTape
