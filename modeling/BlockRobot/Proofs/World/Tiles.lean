import BlockRobot.Proofs.World.Conservation

/-!
# Where the robot can stand

An action leaves the robot on its tile or takes it to the one ahead, and only if that is a free tile of the
map (`Action.Effect.moves`). So the robot stands where it stood at first or on a free tile, and once it is on
the map it stays there. A step from the map leads at most one tile beyond its edge, which the range of
coordinates has room for: `World.robot_on_free_tiles`.
-/

namespace BlockRobot

namespace Position

structure InRange (p : Position) : Prop where
  x : minCoordinate ≤ p.x ∧ p.x ≤ maxCoordinate
  y : minCoordinate ≤ p.y ∧ p.y ≤ maxCoordinate

end Position

namespace World

def OnMap (w : World) (p : Position) : Prop := (0 ≤ p.x ∧ p.x < w.width) ∧ (0 ≤ p.y ∧ p.y < w.height)

instance (w : World) (p : Position) : Decidable (w.OnMap p) := inferInstanceAs (Decidable (_ ∧ _))

structure IsFree (w : World) (p : Position) : Prop where
  onMap : w.OnMap p
  clear : p ∉ w.walls

variable {w w' : World} {p : Position}

theorem contains_iff : w.contains p = true ↔ w.OnMap p := by
  simp only [contains, OnMap, Bool.and_eq_true, decide_eq_true_eq, and_assoc]

theorem SameMap.onMap_iff (h : SameMap w w') : w'.OnMap p ↔ w.OnMap p := by
  rw [OnMap, OnMap, h.width, h.height]

theorem SameMap.isFree_iff (h : SameMap w w') : w'.IsFree p ↔ w.IsFree p := by
  constructor
  · rintro ⟨honMap, hclear⟩
    exact ⟨h.onMap_iff.mp honMap, h.walls ▸ hclear⟩
  · rintro ⟨honMap, hclear⟩
    exact ⟨h.onMap_iff.mpr honMap, h.walls.symm ▸ hclear⟩

/-- The upper ends of a map are not on it, so that a step over its edge is still in range. -/
theorem OnMap.inRange_step (h : w.OnMap p) (hwidth : w.width ≤ Position.maxCoordinate)
    (hheight : w.height ≤ Position.maxCoordinate) (d : Direction) : (p.step d).InRange := by
  obtain ⟨hx, hy⟩ := h
  simp only [Position.maxCoordinate] at hwidth hheight
  constructor <;> cases d <;> simp only [Position.step, Position.minCoordinate, Position.maxCoordinate] <;>
    omega

/-! ## One action -/

/-- From one world to the next the robot keeps its place, or it goes straight on to a free tile. -/
structure Moves (w w' : World) : Prop where
  sameMap : SameMap w w'
  position : w'.robot.position = w.robot.position ∨
    w'.robot.position = w.robot.position.step w.robot.direction ∧ w.IsFree w'.robot.position

end World

namespace Action

open World (Moves SameMap IsFree)

variable {a : Action} {w w' : World}

theorem Effect.moves (h : Effect w a (.ok w')) : Moves w w' := by
  refine ⟨?map, ?place⟩
  case map => cases h <;> exact ⟨rfl, rfl, rfl, rfl⟩
  case place =>
    cases h with
    | moved inside clear =>
      refine .inr ⟨rfl, World.contains_iff.mp inside, fun hwall => ?_⟩
      rw [List.contains_iff_mem.mpr hwall] at clear
      cases clear
    | _ => exact .inl rfl

theorem moves_attempt (a : Action) (w : World) : Moves w (w.attempt (a.apply w)) := by
  cases h : a.apply w with
  | ok w' => exact (Effect.of_eq h).moves
  | error r => exact ⟨SameMap.refl w, .inl rfl⟩

theorem forward_refused_iff :
    (∃ r, Action.apply .forward w = .error r) ↔
      ¬ w.OnMap (w.robot.position.step w.robot.direction) ∨
        w.robot.position.step w.robot.direction ∈ w.walls := by
  rw [← World.contains_iff, ← List.contains_iff_mem]
  have h := apply_effect .forward w
  generalize Action.apply .forward w = r at h ⊢
  cases h with
  | moved inside clear =>
    rw [inside, clear]
    simp
  | outside outside =>
    rw [outside]
    simp
  | blocked inside wall =>
    rw [inside, wall]
    simp

/-! ## Any actions -/

theorem attemptAll_append (as bs : List Action) (w : World) :
    attemptAll (as ++ bs) w = attemptAll bs (attemptAll as w) := List.foldl_append

theorem attemptAll_invariant {I : World → Prop}
    (hI : ∀ (a : Action) (w : World), I w → I (w.attempt (a.apply w))) (as : List Action) (hw : I w) :
    I (attemptAll as w) := by
  induction as generalizing w with
  | nil => exact hw
  | cons a as ih => exact ih (hI a w hw)

theorem sameMap_attemptAll (as : List Action) (w : World) : SameMap w (attemptAll as w) :=
  attemptAll_invariant (I := SameMap w) (fun a w₁ h => h.trans (moves_attempt a w₁).sameMap) as
    (SameMap.refl w)

theorem isFree_attemptAll (as : List Action) (w : World) :
    (attemptAll as w).robot.position = w.robot.position ∨ w.IsFree (attemptAll as w).robot.position := by
  let I (w₁ : World) : Prop :=
    SameMap w w₁ ∧ (w₁.robot.position = w.robot.position ∨ w.IsFree w₁.robot.position)
  have hI : ∀ (a : Action) (w₁ : World), I w₁ → I (w₁.attempt (a.apply w₁)) := by
    rintro a w₁ ⟨hmap, hplace⟩
    obtain ⟨hmap', hplace'⟩ := moves_attempt a w₁
    refine ⟨hmap.trans hmap', ?_⟩
    rcases hplace' with hsame | ⟨-, hfree⟩
    · rwa [hsame]
    · exact .inr (hmap.isFree_iff.mp hfree)
  exact (attemptAll_invariant (I := I) hI as ⟨SameMap.refl w, .inl rfl⟩).2

theorem onMap_attemptAll (as : List Action) (h : w.OnMap w.robot.position) :
    w.OnMap (attemptAll as w).robot.position := by
  rcases isFree_attemptAll as w with hsame | hfree
  · rwa [hsame]
  · exact hfree.onMap

end Action

theorem Machine.Steps.attemptAll {program : Program} {m m₁ : Machine} {w w₁ : World} {as : List Action}
    (h : Steps program m w as m₁ w₁) : Action.attemptAll as w = w₁ := by
  induction h with
  | refl => rfl
  | @step _ _ _ w w₁ _ a? as first _ ih =>
    cases a? with
    | none =>
      obtain rfl := first.world_eq
      exact ih
    | some a =>
      have hdone : w.attempt (a.apply w) = w₁ := by rw [first.applied]; rfl
      rw [Option.toList_some, Action.attemptAll_append]
      change Action.attemptAll as (w.attempt (a.apply w)) = _
      rw [hdone, ih]

namespace World

/-- Where the robot of a world stands after any actions, what the next one can make of that, and that no step
from the map on leaves the range of coordinates. Runs do nothing else to a world. -/
theorem robot_on_free_tiles (w : World) (as : List Action) :
    let w₁ := Action.attemptAll as w
    let ahead := w₁.robot.position.step w₁.robot.direction
    (w₁.robot.position = w.robot.position ∨ w.IsFree w₁.robot.position) ∧
    (∀ a, (Action.attemptAll (as ++ [a]) w).robot.position = w₁.robot.position ∨
      (Action.attemptAll (as ++ [a]) w).robot.position = ahead) ∧
    ((∃ r, Action.apply .forward w₁ = .error r) ↔ ¬ w.OnMap ahead ∨ ahead ∈ w.walls) ∧
    (∀ r, Action.apply .forward w₁ = .error r → Action.attemptAll (as ++ [.forward]) w = w₁ ∧
      ∀ program m, (Machine.perform program m w₁ (.act .forward)).2.2 = w₁) ∧
    (w.OnMap w₁.robot.position → w.width ≤ Position.maxCoordinate → w.height ≤ Position.maxCoordinate →
      ∀ bs d, ((Action.attemptAll (as ++ bs) w).robot.position.step d).InRange) ∧
    ∀ program m m₁ w', Machine.Steps program m w as m₁ w' → w' = w₁ := by
  intro w₁ ahead
  have hmap : SameMap w w₁ := Action.sameMap_attemptAll as w
  have hnext (a : Action) : Action.attemptAll (as ++ [a]) w = w₁.attempt (a.apply w₁) :=
    Action.attemptAll_append as [a] w
  refine ⟨Action.isFree_attemptAll as w, fun a => ?move, ?refused, fun r h => ?still,
    fun hon hwidth hheight bs d => ?range, fun program m m₁ w' h => h.attemptAll.symm⟩
  case move =>
    rw [hnext]
    exact (Action.moves_attempt a w₁).position.imp_right And.left
  case refused =>
    rw [Action.forward_refused_iff, hmap.onMap_iff, hmap.walls]
  case still =>
    have hstill : w₁.attempt (Action.apply .forward w₁) = w₁ := by rw [h]; rfl
    exact ⟨(hnext .forward).trans hstill,
      fun program m => (Machine.perform_act_world program m w₁ .forward).trans hstill⟩
  case range =>
    rw [Action.attemptAll_append]
    have honMap := Action.onMap_attemptAll bs (hmap.onMap_iff.mpr hon)
    exact (hmap.onMap_iff.mp honMap).inRange_step hwidth hheight d

/-- A map of one row that is as wide as coordinates allow, with the robot two tiles from its end. -/
def brink : World :=
  (World.new Position.maxCoordinate 1).withRobot ⟨Position.maxCoordinate - 2, 0⟩ .east

theorem brink_on_free_tiles :
    let w₁ := Action.attemptAll [.turnBack, .turnBack, .forward] brink
    w₁.robot.position = ⟨Position.maxCoordinate - 1, 0⟩ ∧ brink.IsFree w₁.robot.position ∧
      (∃ r, Action.apply .forward w₁ = .error r) ∧
      Action.attemptAll [.turnBack, .turnBack, .forward, .forward] brink = w₁ ∧
      ∀ bs d, ((Action.attemptAll ([.turnBack, .turnBack, .forward] ++ bs) brink).robot.position.step
        d).InRange := by
  intro w₁
  obtain ⟨hplace, -, hrefused, hstill, hrange, -⟩ :=
    robot_on_free_tiles brink [.turnBack, .turnBack, .forward]
  have hposition : w₁.robot.position = ⟨Position.maxCoordinate - 1, 0⟩ := by decide
  have hfree : brink.IsFree w₁.robot.position :=
    hplace.resolve_left (by rw [hposition]; decide)
  obtain ⟨r, hr⟩ := hrefused.mpr (.inl (by decide))
  exact ⟨hposition, hfree, ⟨r, hr⟩, (hstill r hr).1, hrange hfree.onMap (by decide) (by decide)⟩

end World

end BlockRobot
