import BlockRobot.Proofs.Run.Steps

/-!
# Rolling back

A snapshot holds only what actions change. So a rollback is exact because no operation on a world
touches its map (`Op.sameMap_run`), and neither does a run (`Steps.sameMap`). A trial of any
operations, other trials among them, gives the world back as it was, and so does a simulation:
`Simulation.run_leaves_no_trace`.
-/

namespace BlockRobot

namespace World

/-- The fields of a world that a snapshot leaves out are the same in both worlds. -/
structure SameMap (w w' : World) : Prop where
  width : w'.width = w.width
  height : w'.height = w.height
  walls : w'.walls = w.walls
  gameOver : w'.gameOver = w.gameOver

theorem SameMap.refl (w : World) : SameMap w w := ⟨rfl, rfl, rfl, rfl⟩

theorem SameMap.trans {w w₁ w₂ : World} (h : SameMap w w₁) (h' : SameMap w₁ w₂) : SameMap w w₂ :=
  ⟨h'.width.trans h.width, h'.height.trans h.height, h'.walls.trans h.walls,
    h'.gameOver.trans h.gameOver⟩

theorem SameMap.restore_snapshot {w w' : World} (h : SameMap w w') : w'.restore w.snapshot = w := by
  obtain ⟨hwidth, hheight, hwalls, hover⟩ := h
  cases w
  cases w'
  simp only at hwidth hheight hwalls hover
  subst hwidth hheight hwalls hover
  rfl

/-! ## Single operations -/

theorem sameMap_restore (w : World) (s : Snapshot) : SameMap w (w.restore s) := ⟨rfl, rfl, rfl, rfl⟩

theorem sameMap_turn (w : World) (f : Direction → Direction) : SameMap w (w.turn f) :=
  ⟨rfl, rfl, rfl, rfl⟩

theorem sameMap_forward {w w' : World} (h : w.forward = .ok w') : SameMap w w' := by
  simp only [forward] at h
  split at h
  · cases h
  · split at h
    · cases h
    · cases h
      exact ⟨rfl, rfl, rfl, rfl⟩

theorem sameMap_collect {w w' : World} {color : Option String}
    (h : (w.collect color).map Prod.snd = .ok w') : SameMap w w' := by
  simp only [collect] at h
  split at h
  · cases h
    exact ⟨rfl, rfl, rfl, rfl⟩
  · cases h

theorem sameMap_takeBox {w w' : World} (h : w.takeBox = .ok w') : SameMap w w' := by
  simp only [takeBox] at h
  split at h
  · cases h
    exact ⟨rfl, rfl, rfl, rfl⟩
  · cases h

theorem sameMap_putBox {w w' : World} (h : w.putBox = .ok w') : SameMap w w' := by
  simp only [putBox] at h
  split at h
  · cases h
  · cases h
    exact ⟨rfl, rfl, rfl, rfl⟩

/-! ## Sequences of operations -/

/-- What can be done to a world. A `trial` is rolled back when its operations are done, and `restore`
goes back to any snapshot. -/
inductive Op where
  | forward
  | turnLeft
  | turnRight
  | turnBack
  | collect (color : Option String)
  | takeBox
  | putBox
  | restore (s : Snapshot)
  | trial (ops : List Op)

def attempt (w : World) : Except Refusal World → World
  | .ok w' => w'
  | .error _ => w

theorem sameMap_attempt {w : World} {r : Except Refusal World}
    (h : ∀ w', r = .ok w' → SameMap w w') : SameMap w (w.attempt r) := by
  cases r with
  | ok w' => exact h w' rfl
  | error refusal => exact SameMap.refl w

namespace Op

mutual

def run : Op → World → World
  | .forward, w => w.attempt w.forward
  | .turnLeft, w => w.turn .left
  | .turnRight, w => w.turn .right
  | .turnBack, w => w.turn .back
  | .collect color, w => w.attempt ((w.collect color).map Prod.snd)
  | .takeBox, w => w.attempt w.takeBox
  | .putBox, w => w.attempt w.putBox
  | .restore s, w => w.restore s
  | .trial ops, w => (w.trial fun w => ((), runAll ops w)).2

def runAll : List Op → World → World
  | [], w => w
  | op :: ops, w => runAll ops (run op w)

end

mutual

theorem sameMap_run (op : Op) (w : World) : SameMap w (op.run w) := by
  cases op with
  | forward => exact sameMap_attempt fun _ => sameMap_forward
  | turnLeft => exact sameMap_turn w _
  | turnRight => exact sameMap_turn w _
  | turnBack => exact sameMap_turn w _
  | collect color => exact sameMap_attempt fun _ => sameMap_collect
  | takeBox => exact sameMap_attempt fun _ => sameMap_takeBox
  | putBox => exact sameMap_attempt fun _ => sameMap_putBox
  | restore s => exact sameMap_restore w s
  | trial ops => exact (sameMap_runAll ops w).trans (sameMap_restore _ _)

theorem sameMap_runAll (ops : List Op) (w : World) : SameMap w (runAll ops w) := by
  cases ops with
  | nil => exact SameMap.refl w
  | cons op ops => exact (sameMap_run op w).trans (sameMap_runAll ops (op.run w))

end

end Op

theorem trial_eq {α : Type} {w : World} {f : World → α × World} (h : SameMap w (f w).2) :
    w.trial f = ((f w).1, w) := by
  simp only [trial, h.restore_snapshot]

end World

/-! ## Runs -/

theorem Action.sameMap_apply {a : Action} {w w' : World} (h : a.apply w = .ok w') :
    World.SameMap w w' := by
  cases a with
  | forward => exact World.sameMap_forward h
  | turnLeft => cases h; exact World.sameMap_turn w _
  | turnRight => cases h; exact World.sameMap_turn w _
  | turnBack => cases h; exact World.sameMap_turn w _
  | collect colors => exact World.sameMap_collect h
  | putBox => exact World.sameMap_putBox h
  | takeBox => exact World.sameMap_takeBox h

namespace Machine

variable {program : Program} {m m₁ : Machine} {w w₁ : World}

theorem Step.sameMap {a? : Option Action} (h : Step program m w a? m₁ w₁) : World.SameMap w w₁ := by
  cases h with
  | act _ _ applied => exact Action.sameMap_apply applied
  | node => exact World.SameMap.refl w

theorem Steps.sameMap {as : List Action} (h : Steps program m w as m₁ w₁) : World.SameMap w w₁ :=
  h.invariant (I := fun _ w' => World.SameMap w w') (fun hstep hI => hI.trans hstep.sameMap)
    (World.SameMap.refl w)

theorem sameMap_run (program : Program) (m : Machine) (w : World) :
    World.SameMap w (m.run program w).world := by
  obtain ⟨_, hsteps, _⟩ := exists_steps_halt program m w
  exact hsteps.sameMap

end Machine

/-- A simulation gives the world back as it was, so that it can be repeated, and so does a trial of any
operations on a world. -/
theorem Simulation.run_leaves_no_trace (evaluator : Evaluator) (limits : Limits) (program : Program)
    (w : World) :
    (run evaluator limits program w).2 = w ∧
    run evaluator limits program (run evaluator limits program w).2 =
      run evaluator limits program w ∧
    ∀ ops : List World.Op, (w.trial fun w => ((), World.Op.runAll ops w)).2 = w := by
  have hworld : (run evaluator limits program w).2 = w := by
    rw [run, World.trial_eq (Machine.sameMap_run program _ w)]
  refine ⟨hworld, by rw [hworld], fun ops => ?_⟩
  rw [World.trial_eq (World.Op.sameMap_runAll ops w)]

end BlockRobot
