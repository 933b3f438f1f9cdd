import BlockRobot.Text.Case
import BlockRobot.World.Position
import BlockRobot.World.Tally

/-!
# The grid world

A rectangle of tiles with walls, items and piles of boxes, and a robot on it. Every action either
changes the world or is refused and leaves it alone.
-/

namespace BlockRobot

structure Robot where
  position : Position
  direction : Direction
  deriving DecidableEq, Repr

structure Item where
  position : Position
  color : String
  available : Bool
  deriving DecidableEq, Repr

structure Pile where
  position : Position
  count : Nat
  deriving DecidableEq, Repr

/-- `walls` is in the order of `Position.before`, without repetition. -/
structure World where
  width : Int
  height : Int
  walls : List Position
  robot : Robot
  items : List Item
  piles : List Pile
  inventory : Inventory
  gameOver : Bool
  deriving DecidableEq, Repr

inductive Refusal where
  | outside (direction : Direction) (target : Position)
  | wall (direction : Direction) (target : Position)
  | noItem (color : Option String) (here : Position)
  | noBox (here : Position)
  | notCarrying (here : Position)
  deriving DecidableEq, Repr

def Refusal.message : Refusal → String
  | .outside direction target =>
    "cannot move " ++ direction.name ++ " to " ++ target.render ++ ": outside the map"
  | .wall direction target =>
    "cannot move " ++ direction.name ++ " to " ++ target.render ++ ": blocked by a wall"
  | .noItem (some color) here => "no " ++ color ++ " item to collect at " ++ here.render
  | .noItem none here => "no item to collect at " ++ here.render
  | .noBox here => "no box to take at " ++ here.render
  | .notCarrying here => "cannot put a box at " ++ here.render ++ ": not carrying any"

namespace World

/-! ## Building a world -/

/-- An empty map with the robot in its corner, facing east. -/
def new (width height : Int) : World :=
  ⟨width, height, [], ⟨⟨0, 0⟩, .east⟩, [], [], .empty, false⟩

def withRobot (w : World) (position : Position) (direction : Direction) : World :=
  { w with robot := ⟨position, direction⟩ }

def insertWall (p : Position) : List Position → List Position
  | [] => [p]
  | q :: rest =>
    if p = q then q :: rest
    else if p.before q then p :: q :: rest
    else q :: insertWall p rest

def withWall (w : World) (p : Position) : World := { w with walls := insertWall p w.walls }

def withItems (w : World) (p : Position) (color : String) (count : Nat) : World :=
  { w with items := w.items ++ List.replicate count ⟨p, Text.lower color, true⟩ }

def withPile (w : World) (p : Position) (count : Nat) : World :=
  { w with piles := w.piles ++ [⟨p, count⟩] }

/-! ## Looking at a world -/

def contains (w : World) (p : Position) : Bool :=
  decide (0 ≤ p.x) && decide (p.x < w.width) && decide (0 ≤ p.y) && decide (p.y < w.height)

def boxesAt (w : World) (p : Position) : Nat :=
  sumOver Pile.count (w.piles.filter fun s => s.position = p)

/-- The number of available items, of one color if one is given. -/
def itemsRemaining (w : World) (color : Option String) : Nat :=
  w.items.countP fun i => i.available && color.all (i.color == ·)

def tileAt (w : World) (p : Position) : Tile :=
  (w.items.filter fun i => i.available && i.position = p).foldl (fun t i => t.add i.color) .empty

def here (w : World) : Tile := w.tileAt w.robot.position

/-- The answer to a question of a program, such as `boxesAt` with the argument `2,3`. -/
def query (w : World) (name : String) (argument : Option String) : Option Nat :=
  if name = "boxesAt" || name = "stockAt" then
    (argument.bind Position.parse?).map w.boxesAt
  else if name = "boxesCarried" then some w.inventory.boxesCarried
  else if name = "boxesPlaced" then some w.inventory.boxesPlaced
  else if name = "collectedCount" then
    match argument with
    | some color => some (w.inventory.collected.of (Text.lower color))
    | none => some w.inventory.collected.total
  else if name = "itemsRemaining" then some (w.itemsRemaining (argument.map Text.lower))
  else none

/-! ## Acting on a world -/

def forward (w : World) : Except Refusal World :=
  let next := w.robot.position.step w.robot.direction
  if !w.contains next then .error (.outside w.robot.direction next)
  else if w.walls.contains next then .error (.wall w.robot.direction next)
  else .ok { w with robot := { w.robot with position := next } }

def turn (w : World) (f : Direction → Direction) : World :=
  { w with robot := { w.robot with direction := f w.robot.direction } }

/-- Whether an item can be collected at `p`, of the color `color` if one is given. -/
def isWanted (p : Position) (color : Option String) (i : Item) : Bool :=
  i.available && decide (i.position = p) && color.all (i.color == ·)

/-- Takes the first item that satisfies `wanted`, and gives its color. -/
def takeFirst (wanted : Item → Bool) : List Item → Option (String × List Item)
  | [] => none
  | i :: rest =>
    if wanted i then some (i.color, { i with available := false } :: rest)
    else (takeFirst wanted rest).map fun r => (r.1, i :: r.2)

/-- Collects an item on the robot's tile, and gives its color. -/
def collect (w : World) (color : Option String) : Except Refusal (String × World) :=
  match takeFirst (isWanted w.robot.position color) w.items with
  | some (taken, items) =>
    .ok (taken, { w with
      items := items
      inventory := { w.inventory with collected := w.inventory.collected.bump taken } })
  | none => .error (.noItem color w.robot.position)

/-- Changes the count of the first pile that satisfies `p`. -/
def updateFirst (p : Pile → Bool) (f : Nat → Nat) : List Pile → Option (List Pile)
  | [] => none
  | s :: rest =>
    if p s then some ({ s with count := f s.count } :: rest)
    else (updateFirst p f rest).map (s :: ·)

def takeBox (w : World) : Except Refusal World :=
  let here := w.robot.position
  match updateFirst (fun s => decide (s.position = here) && decide (0 < s.count)) (· - 1) w.piles with
  | some piles =>
    .ok { w with
      piles := piles
      inventory := { w.inventory with boxesCarried := w.inventory.boxesCarried + 1 } }
  | none => .error (.noBox here)

def putBox (w : World) : Except Refusal World :=
  let here := w.robot.position
  if w.inventory.boxesCarried = 0 then .error (.notCarrying here)
  else
    let piles := (updateFirst (fun s => decide (s.position = here)) (· + 1) w.piles).getD
      (w.piles ++ [⟨here, 1⟩])
    .ok { w with
      piles := piles
      inventory := { w.inventory with
        boxesCarried := w.inventory.boxesCarried - 1
        boxesPlaced := w.inventory.boxesPlaced + 1 } }

/-! ## Undoing -/

/-- All that an action can change. -/
structure Snapshot where
  robot : Robot
  items : List Item
  piles : List Pile
  inventory : Inventory
  deriving DecidableEq, Repr

def snapshot (w : World) : Snapshot := ⟨w.robot, w.items, w.piles, w.inventory⟩

def restore (w : World) (s : Snapshot) : World :=
  { w with robot := s.robot, items := s.items, piles := s.piles, inventory := s.inventory }

/-- The result of `f` on a world, and the world rolled back to what it was before. -/
def trial {α : Type} (w : World) (f : World → α × World) : α × World :=
  let (a, after) := f w
  (a, after.restore w.snapshot)

@[simp] theorem restore_snapshot (w : World) : w.restore w.snapshot = w := rfl

end World

end BlockRobot
