import BlockRobot.Json.Decode
import BlockRobot.World.Basic

/-!
# Worlds as JSON values

Tallies and coordinates are read within the range of 32 bits. The color of an item is read in lower
case and without blanks, the colors of an inventory as they are.
-/

namespace BlockRobot

open Json (Value Decoder)

def maxTally : Nat := 4294967295

namespace World

def tallyCount : Decoder Nat := Json.natural maxTally

def coordinate : Decoder Int := Json.integer Position.minCoordinate Position.maxCoordinate

def position? : Decoder Position := fun v => do
  let fields ← Json.record ["x", "y"] v
  return ⟨← Json.required "x" coordinate fields, ← Json.required "y" coordinate fields⟩

def direction? : Decoder Direction := fun v => (Json.tag v).bind Direction.ofName?

def robot? : Decoder Robot := fun v => do
  let fields ← Json.record ["position", "direction"] v
  return ⟨← Json.required "position" position? fields, ← Json.required "direction" direction? fields⟩

def itemColor : Decoder String := fun v => (Json.string v).map fun s => Text.lower (Text.trim s)

def item? : Decoder Item := fun v => do
  let fields ← Json.record ["position", "color", "available"] v
  return ⟨← Json.required "position" position? fields, ← Json.required "color" itemColor fields,
    ← Json.defaulted "available" true Json.boolean fields⟩

def pile? : Decoder Pile := fun v => do
  let fields ← Json.record ["position", "count"] v
  return ⟨← Json.required "position" position? fields, ← Json.required "count" tallyCount fields⟩

def tally? : Decoder Tally := Json.table tallyCount

def tile? : Decoder Tile := fun v => do
  let fields ← Json.record ["count", "colorCounts"] v
  return ⟨← Json.required "count" tallyCount fields, ← Json.required "colorCounts" tally? fields⟩

def inventory? : Decoder Inventory := fun v => do
  let fields ← Json.record ["collected", "boxesCarried", "boxesPlaced"] v
  return ⟨← Json.defaulted "collected" .empty tally? fields,
    ← Json.defaulted "boxesCarried" 0 tallyCount fields,
    ← Json.defaulted "boxesPlaced" 0 tallyCount fields⟩

def walls? : Decoder (List Position) := fun v =>
  (Json.list position? v).map fun ps => ps.foldl (fun walls p => insertWall p walls) []

def ofJson? : Decoder World := fun v => do
  let fields ← Json.record
    ["width", "height", "walls", "robot", "items", "stacks", "inventory", "gameOver"] v
  return {
    width := ← Json.required "width" coordinate fields
    height := ← Json.required "height" coordinate fields
    walls := ← Json.defaulted "walls" [] walls? fields
    robot := ← Json.required "robot" robot? fields
    items := ← Json.defaulted "items" [] (Json.list item?) fields
    piles := ← Json.defaulted "stacks" [] (Json.list pile?) fields
    inventory := ← Json.defaulted "inventory" .empty inventory? fields
    gameOver := ← Json.defaulted "gameOver" false Json.boolean fields }

/-! ## Writing -/

def ofInt (n : Int) : Value := .num (.int n)

def positionJson (p : Position) : Value := .obj [("x", ofInt p.x), ("y", ofInt p.y)]

def tallyJson (t : Tally) : Value := .obj (t.entries.map fun e => (e.1, ofInt e.2))

def inventoryJson (i : Inventory) : Value :=
  .obj [("collected", tallyJson i.collected), ("boxesCarried", ofInt i.boxesCarried),
    ("boxesPlaced", ofInt i.boxesPlaced)]

def itemJson (i : Item) : Value :=
  .obj [("position", positionJson i.position), ("color", .str i.color), ("available", .bool i.available)]

def pileJson (s : Pile) : Value :=
  .obj [("position", positionJson s.position), ("count", ofInt s.count)]

def toJson (w : World) : Value :=
  .obj [("width", ofInt w.width), ("height", ofInt w.height), ("walls", .arr (w.walls.map positionJson)),
    ("robot", .obj [("position", positionJson w.robot.position),
      ("direction", .str w.robot.direction.name)]),
    ("items", .arr (w.items.map itemJson)), ("stacks", .arr (w.piles.map pileJson)),
    ("inventory", inventoryJson w.inventory), ("gameOver", .bool w.gameOver)]

end World

end BlockRobot
