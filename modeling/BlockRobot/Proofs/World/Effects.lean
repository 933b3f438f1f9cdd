import BlockRobot.Run.Action

/-!
# What actions do to a world

`Action.Effect` lists all that an action can do, with what each of it takes, and `Action.apply_effect`
says that there is nothing else. The item or the pile that changes is the first of its kind, so the list
it stands in is split at it.
-/

namespace BlockRobot

namespace World

/-! ## The first of a kind -/

theorem all_or_first {α : Type} (p : α → Bool) (xs : List α) :
    (∀ x ∈ xs, p x = false) ∨
      ∃ before x after, xs = before ++ x :: after ∧ p x = true ∧ ∀ y ∈ before, p y = false := by
  cases hfind : xs.find? p with
  | none => exact .inl (by simpa using hfind)
  | some x =>
    obtain ⟨hx, before, after, hxs, hbefore⟩ := List.find?_eq_some_iff_append.mp hfind
    exact .inr ⟨before, x, after, hxs, hx, by simpa using hbefore⟩

theorem takeFirst_of_none {wanted : Item → Bool} {items : List Item}
    (h : ∀ i ∈ items, wanted i = false) : takeFirst wanted items = none := by
  induction items with
  | nil => rfl
  | cons i rest ih =>
    obtain ⟨hi, hrest⟩ := List.forall_mem_cons.mp h
    simp [takeFirst, hi, ih hrest]

theorem takeFirst_of_first {wanted : Item → Bool} {before after : List Item} {i : Item}
    (hbefore : ∀ j ∈ before, wanted j = false) (hi : wanted i = true) :
    takeFirst wanted (before ++ i :: after) =
      some (i.color, before ++ { i with available := false } :: after) := by
  induction before with
  | nil => simp [takeFirst, hi]
  | cons j rest ih =>
    obtain ⟨hj, hrest⟩ := List.forall_mem_cons.mp hbefore
    simp [takeFirst, hj, ih hrest]

theorem updateFirst_of_none {p : Pile → Bool} {f : Nat → Nat} {piles : List Pile}
    (h : ∀ s ∈ piles, p s = false) : updateFirst p f piles = none := by
  induction piles with
  | nil => rfl
  | cons s rest ih =>
    obtain ⟨hs, hrest⟩ := List.forall_mem_cons.mp h
    simp [updateFirst, hs, ih hrest]

theorem updateFirst_of_first {p : Pile → Bool} {f : Nat → Nat} {before after : List Pile} {s : Pile}
    (hbefore : ∀ t ∈ before, p t = false) (hs : p s = true) :
    updateFirst p f (before ++ s :: after) =
      some (before ++ { s with count := f s.count } :: after) := by
  induction before with
  | nil => simp [updateFirst, hs]
  | cons t rest ih =>
    obtain ⟨ht, hrest⟩ := List.forall_mem_cons.mp hbefore
    simp [updateFirst, ht, ih hrest]

/-! ## Tiles -/

/-- The colors of the available items on a tile, in the order of the items. -/
def colorsOn (p : Position) (items : List Item) : List String :=
  (items.filter fun i => i.available && decide (i.position = p)).map Item.color

theorem mem_colorsOn {p : Position} {items : List Item} {color : String} :
    color ∈ colorsOn p items ↔
      ∃ i ∈ items, i.available = true ∧ i.position = p ∧ i.color = color := by
  simp only [colorsOn, List.mem_map, List.mem_filter, Bool.and_eq_true, decide_eq_true_eq]
  constructor
  · rintro ⟨i, ⟨hi, ha, hp⟩, hc⟩
    exact ⟨i, hi, ha, hp, hc⟩
  · rintro ⟨i, hi, ha, hp, hc⟩
    exact ⟨i, ⟨hi, ha, hp⟩, hc⟩

theorem tileAt_eq (w : World) (p : Position) :
    w.tileAt p = (colorsOn p w.items).foldl Tile.add .empty := by
  rw [colorsOn, List.foldl_map, tileAt]

theorem countOf_foldl_add (colors : List String) (t : Tile) (color : String) :
    (colors.foldl Tile.add t).countOf color = t.countOf color + colors.count color := by
  induction colors generalizing t with
  | nil => rfl
  | cons c rest ih =>
    rw [List.foldl_cons, ih, List.count_cons, Tile.countOf, Tile.add, Tally.of_bump]
    by_cases h : c = color
    · simp [h, Tile.countOf]; omega
    · simp [h, Tile.countOf]

theorem countOf_tileAt (w : World) (p : Position) (color : String) :
    (w.tileAt p).countOf color = (colorsOn p w.items).count color := by
  have hempty : Tile.empty.countOf color = 0 := rfl
  rw [tileAt_eq, countOf_foldl_add, hempty, Nat.zero_add]

end World

namespace Action

open World (isWanted)

theorem isWanted_iff {p : Position} {color? : Option String} {i : Item} :
    isWanted p color? i = true ↔
      i.available = true ∧ i.position = p ∧ ∀ color, color? = some color → i.color = color := by
  cases color? with
  | none => simp [isWanted]
  | some color => simp [isWanted, and_assoc]

/-- All that an action can do to a world. -/
inductive Effect (w : World) : Action → Except Refusal World → Prop where
  | moved (inside : w.contains (w.robot.position.step w.robot.direction) = true)
      (clear : w.walls.contains (w.robot.position.step w.robot.direction) = false) :
      Effect w .forward (.ok { w with
        robot := { w.robot with position := w.robot.position.step w.robot.direction } })
  | outside (outside : w.contains (w.robot.position.step w.robot.direction) = false) :
      Effect w .forward
        (.error (.outside w.robot.direction (w.robot.position.step w.robot.direction)))
  | blocked (inside : w.contains (w.robot.position.step w.robot.direction) = true)
      (wall : w.walls.contains (w.robot.position.step w.robot.direction) = true) :
      Effect w .forward
        (.error (.wall w.robot.direction (w.robot.position.step w.robot.direction)))
  | turnedLeft : Effect w .turnLeft (.ok (w.turn .left))
  | turnedRight : Effect w .turnRight (.ok (w.turn .right))
  | turnedBack : Effect w .turnBack (.ok (w.turn .back))
  | collected {colors : List String} {before after : List Item} {i : Item}
      (items : w.items = before ++ i :: after)
      (wanted : isWanted w.robot.position (choose w.here colors) i = true)
      (first : ∀ j ∈ before, isWanted w.robot.position (choose w.here colors) j = false) :
      Effect w (.collect colors) (.ok { w with
        items := before ++ { i with available := false } :: after
        inventory := { w.inventory with collected := w.inventory.collected.bump i.color } })
  | nothingWanted {colors : List String}
      (unwanted : ∀ i ∈ w.items, isWanted w.robot.position (choose w.here colors) i = false) :
      Effect w (.collect colors) (.error (.noItem (choose w.here colors) w.robot.position))
  | took {before after : List Pile} {s : Pile} (piles : w.piles = before ++ s :: after)
      (here : s.position = w.robot.position) (filled : 0 < s.count)
      (first : ∀ t ∈ before, t.position = w.robot.position → t.count = 0) :
      Effect w .takeBox (.ok { w with
        piles := before ++ { s with count := s.count - 1 } :: after
        inventory := { w.inventory with boxesCarried := w.inventory.boxesCarried + 1 } })
  | nothingThere (empty : ∀ s ∈ w.piles, s.position = w.robot.position → s.count = 0) :
      Effect w .takeBox (.error (.noBox w.robot.position))
  | put {before after : List Pile} {s : Pile} (carries : w.inventory.boxesCarried ≠ 0)
      (piles : w.piles = before ++ s :: after) (here : s.position = w.robot.position)
      (first : ∀ t ∈ before, t.position ≠ w.robot.position) :
      Effect w .putBox (.ok { w with
        piles := before ++ { s with count := s.count + 1 } :: after
        inventory := { w.inventory with
          boxesCarried := w.inventory.boxesCarried - 1
          boxesPlaced := w.inventory.boxesPlaced + 1 } })
  | putDown (carries : w.inventory.boxesCarried ≠ 0)
      (bare : ∀ s ∈ w.piles, s.position ≠ w.robot.position) :
      Effect w .putBox (.ok { w with
        piles := w.piles ++ [⟨w.robot.position, 1⟩]
        inventory := { w.inventory with
          boxesCarried := w.inventory.boxesCarried - 1
          boxesPlaced := w.inventory.boxesPlaced + 1 } })
  | nothingCarried (carries : w.inventory.boxesCarried = 0) :
      Effect w .putBox (.error (.notCarrying w.robot.position))

theorem forward_effect (w : World) : Effect w .forward w.forward := by
  simp only [World.forward]
  cases hin : w.contains (w.robot.position.step w.robot.direction) with
  | false => exact .outside hin
  | true =>
    cases hwall : w.walls.contains (w.robot.position.step w.robot.direction) with
    | true => exact .blocked hin hwall
    | false => exact .moved hin hwall

theorem collect_effect (w : World) (colors : List String) :
    Effect w (.collect colors) ((w.collect (choose w.here colors)).map Prod.snd) := by
  simp only [World.collect]
  rcases World.all_or_first (isWanted w.robot.position (choose w.here colors)) w.items with
    hnone | ⟨before, i, after, hitems, hi, hbefore⟩
  · rw [World.takeFirst_of_none hnone]
    exact .nothingWanted hnone
  · rw [hitems, World.takeFirst_of_first hbefore hi]
    exact .collected hitems hi hbefore

theorem takeBox_effect (w : World) : Effect w .takeBox w.takeBox := by
  simp only [World.takeBox]
  rcases World.all_or_first
      (fun s : Pile => decide (s.position = w.robot.position) && decide (0 < s.count)) w.piles with
    hnone | ⟨before, s, after, hpiles, hs, hbefore⟩
  · rw [World.updateFirst_of_none hnone]
    refine .nothingThere fun s hs hhere => ?_
    simpa [hhere] using hnone s hs
  · rw [hpiles, World.updateFirst_of_first hbefore hs]
    simp only [Bool.and_eq_true, decide_eq_true_eq] at hs
    refine .took hpiles hs.1 hs.2 fun t ht hhere => ?_
    simpa [hhere] using hbefore t ht

theorem putBox_effect (w : World) : Effect w .putBox w.putBox := by
  simp only [World.putBox]
  split
  · next hcarries => exact .nothingCarried hcarries
  · next hcarries =>
    rcases World.all_or_first (fun s : Pile => decide (s.position = w.robot.position)) w.piles with
      hnone | ⟨before, s, after, hpiles, hs, hbefore⟩
    · rw [World.updateFirst_of_none hnone]
      exact .putDown hcarries fun s hs => by simpa using hnone s hs
    · rw [hpiles, World.updateFirst_of_first hbefore hs]
      exact .put hcarries hpiles (by simpa using hs) fun t ht => by simpa using hbefore t ht

theorem apply_effect (a : Action) (w : World) : Effect w a (a.apply w) := by
  cases a with
  | forward => exact forward_effect w
  | turnLeft => exact .turnedLeft
  | turnRight => exact .turnedRight
  | turnBack => exact .turnedBack
  | collect colors => exact collect_effect w colors
  | putBox => exact putBox_effect w
  | takeBox => exact takeBox_effect w

theorem Effect.of_eq {a : Action} {w : World} {r : Except Refusal World} (h : a.apply w = r) :
    Effect w a r := by
  rw [← h]
  exact apply_effect a w

end Action

end BlockRobot
