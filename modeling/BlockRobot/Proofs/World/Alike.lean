import BlockRobot.Proofs.World.Effects

/-!
# Worlds that look alike from some tiles

Two worlds are `Alike` from a list of tiles if they differ only in what the robot cannot see from there:
items elsewhere, items that are gone, and what was collected and placed. An action on one of the tiles
is done in both worlds or refused in both, and leaves them alike (`Alike.apply`).
-/

namespace BlockRobot

namespace World

/-- Whether two worlds have the same map, robot and boxes, and on the tiles of `seen` the same items, in
the same order. -/
structure Alike (seen : List Position) (w w' : World) : Prop where
  width : w'.width = w.width
  height : w'.height = w.height
  walls : w'.walls = w.walls
  robot : w'.robot = w.robot
  piles : w'.piles = w.piles
  carried : w'.inventory.boxesCarried = w.inventory.boxesCarried
  colors : ∀ p ∈ seen, colorsOn p w'.items = colorsOn p w.items

variable {seen : List Position} {w w' : World}

theorem Alike.mono {seen' : List Position} (h : Alike seen w w') (hseen : seen' ⊆ seen) :
    Alike seen' w w' :=
  { h with colors := fun p hp => h.colors p (hseen hp) }

theorem Alike.contains (h : Alike seen w w') (p : Position) : w'.contains p = w.contains p := by
  simp only [World.contains, h.width, h.height]

theorem Alike.here (h : Alike seen w w') (hseen : w.robot.position ∈ seen) : w'.here = w.here := by
  rw [World.here, World.here, tileAt_eq, tileAt_eq, h.robot, h.colors _ hseen]

/-! ## The item that is collected -/

theorem colorsOn_cons (p : Position) (i : Item) (items : List Item) :
    colorsOn p (i :: items) =
      if i.available && decide (i.position = p) then i.color :: colorsOn p items
      else colorsOn p items := by
  simp only [colorsOn, List.filter_cons]
  split <;> rfl

theorem color_takeFirst (p : Position) (color : Option String) (items : List Item) :
    (takeFirst (isWanted p color) items).map Prod.fst =
      (colorsOn p items).find? fun c => color.all (c == ·) := by
  induction items with
  | nil => rfl
  | cons i rest ih =>
    rw [colorsOn_cons, takeFirst, isWanted]
    cases hhere : i.available && decide (i.position = p) with
    | false => simpa [Option.map_map, Function.comp_def] using ih
    | true =>
      cases hcolor : color.all (i.color == ·) with
      | true => simp [hcolor]
      | false => simpa [hcolor, Option.map_map, Function.comp_def] using ih

theorem colorsOn_takeFirst {p : Position} {color : Option String} {items items' : List Item}
    {taken : String} (h : takeFirst (isWanted p color) items = some (taken, items')) (q : Position) :
    colorsOn q items' =
      if q = p then (colorsOn q items).eraseP fun c => color.all (c == ·) else colorsOn q items := by
  induction items generalizing items' with
  | nil => cases h
  | cons i rest ih =>
    simp only [takeFirst] at h
    cases hwanted : isWanted p color i with
    | true =>
      simp only [hwanted, if_true, Option.some.injEq, Prod.mk.injEq] at h
      obtain ⟨rfl, rfl⟩ := h
      simp only [isWanted, Bool.and_eq_true, decide_eq_true_eq] at hwanted
      obtain ⟨⟨havailable, rfl⟩, hcolor⟩ := hwanted
      rw [colorsOn_cons, colorsOn_cons]
      by_cases hq : i.position = q
      · subst hq
        simp [havailable, hcolor]
      · simp [hq, Ne.symm hq]
    | false =>
      simp only [hwanted, Bool.false_eq_true, if_false, Option.map_eq_some_iff, Prod.mk.injEq,
        Prod.exists] at h
      obtain ⟨_, later, hlater, rfl, rfl⟩ := h
      rw [colorsOn_cons, colorsOn_cons, ih hlater]
      by_cases hq : q = p
      · subst hq
        cases hhere : i.available && decide (i.position = q) with
        | false => simp
        | true =>
          simp only [isWanted, hhere, Bool.true_and] at hwanted
          simp [hwanted]
      · simp [hq]

/-! ## Actions -/

/-- What comes of an action in two worlds that are alike. -/
inductive AlikeResults (seen : List Position) :
    Except Refusal World → Except Refusal World → Prop where
  | done {w w' : World} (alike : Alike seen w w') : AlikeResults seen (.ok w) (.ok w')
  | refused (r : Refusal) : AlikeResults seen (.error r) (.error r)

theorem Alike.forward (h : Alike seen w w') : AlikeResults seen w.forward w'.forward := by
  simp only [World.forward, h.contains, h.robot, h.walls]
  split
  · exact .refused _
  · split
    · exact .refused _
    · exact .done { h with walls := rfl, robot := rfl }

theorem Alike.turn (h : Alike seen w w') (f : Direction → Direction) :
    Alike seen (w.turn f) (w'.turn f) :=
  { h with robot := by simp only [World.turn, h.robot] }

theorem Alike.collect (h : Alike seen w w') (hseen : w.robot.position ∈ seen) (color : Option String) :
    AlikeResults seen ((w.collect color).map Prod.snd) ((w'.collect color).map Prod.snd) := by
  have htaken := color_takeFirst w.robot.position color w.items
  rw [← h.colors _ hseen, ← color_takeFirst] at htaken
  simp only [World.collect, h.robot]
  cases htake : takeFirst (isWanted w.robot.position color) w.items with
  | none =>
    rw [htake] at htaken
    rw [Option.map_eq_none_iff.mp htaken.symm]
    exact .refused _
  | some r =>
    obtain ⟨taken, items⟩ := r
    rw [htake] at htaken
    obtain ⟨⟨_, items'⟩, htake', rfl⟩ := Option.map_eq_some_iff.mp htaken.symm
    rw [htake']
    refine .done { h with robot := rfl, colors := fun p hp => ?_ }
    rw [colorsOn_takeFirst htake, colorsOn_takeFirst htake', h.colors p hp]

theorem Alike.putBox (h : Alike seen w w') : AlikeResults seen w.putBox w'.putBox := by
  simp only [World.putBox, h.robot, h.piles, h.carried]
  split
  · exact .refused _
  · exact .done { h with robot := rfl, piles := rfl, carried := rfl }

theorem Alike.takeBox (h : Alike seen w w') : AlikeResults seen w.takeBox w'.takeBox := by
  simp only [World.takeBox, h.robot, h.piles, h.carried]
  split
  · exact .done { h with robot := rfl, piles := rfl, carried := rfl }
  · exact .refused _

theorem Alike.apply (h : Alike seen w w') (hseen : w.robot.position ∈ seen) (a : Action) :
    AlikeResults seen (a.apply w) (a.apply w') := by
  cases a with
  | forward => exact h.forward
  | turnLeft => exact .done (h.turn _)
  | turnRight => exact .done (h.turn _)
  | turnBack => exact .done (h.turn _)
  | collect colors =>
    simp only [Action.apply, h.here hseen]
    exact h.collect hseen _
  | putBox => exact h.putBox
  | takeBox => exact h.takeBox

end World

end BlockRobot
