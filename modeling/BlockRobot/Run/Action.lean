import BlockRobot.Json.Decode
import BlockRobot.Program.Kind
import BlockRobot.World.Basic

/-!
# Actions

An action is one step of the robot. A statement with a count runs as that many actions.
-/

namespace BlockRobot

/-- `collect` takes an item of the first of its colors that is on the tile, or, without colors, any
item. -/
inductive Action where
  | forward
  | turnLeft
  | turnRight
  | turnBack
  | collect (colors : List String)
  | putBox
  | takeBox
  deriving DecidableEq, Repr

namespace Action

def kind : Action → Kind
  | .forward => .forward
  | .turnLeft => .turnLeft
  | .turnRight => .turnRight
  | .turnBack => .turnBack
  | .collect _ => .collect
  | .putBox => .putBox
  | .takeBox => .takeBox

def choose (tile : Tile) (colors : List String) : Option String :=
  (colors.find? fun c => decide (0 < tile.countOf c)) <|> colors.head?

def apply (a : Action) (w : World) : Except Refusal World :=
  match a with
  | .forward => w.forward
  | .turnLeft => .ok (w.turn .left)
  | .turnRight => .ok (w.turn .right)
  | .turnBack => .ok (w.turn .back)
  | .collect colors => (w.collect (choose w.here colors)).map Prod.snd
  | .putBox => w.putBox
  | .takeBox => w.takeBox

def render : Action → String
  | .collect [] => "collect"
  | .collect (c :: cs) => "collect(" ++ "|".intercalate (c :: cs) ++ ")"
  | a => a.kind.tag

def toJson : Action → Json.Value
  | .collect colors => .obj [("type", .str "collect"), ("colors", .arr (colors.map .str))]
  | a => .obj [("type", .str a.kind.tag)]

/-- The action of a type that has no fields. -/
def bare? (type : String) : Option Action :=
  if type = "forward" then some .forward
  else if type = "turnLeft" then some .turnLeft
  else if type = "turnRight" then some .turnRight
  else if type = "turnBack" then some .turnBack
  else if type = "putBox" then some .putBox
  else if type = "takeBox" then some .takeBox
  else none

/-- Reads an object with a `type`, or the list of the type and what it needs. -/
def ofJson? : Json.Decoder Action
  | .obj fields => do
    let type ← Json.required "type" Json.string fields
    if type = "collect" then
      return .collect (← Json.required "colors" (Json.list Json.string) fields)
    else bare? type
  | .arr [.str type] => bare? type
  | .arr [.str type, colors] =>
    if type = "collect" then (Json.list Json.string colors).map .collect else none
  | _ => none

end Action

end BlockRobot
