import BlockRobot.Text.Letter
import BlockRobot.World.Basic

/-!
# Sensors

Names that read the robot's tile: `redCount` and `redBatteryCount` count the red items, `isRed`,
`hasRed`, `hasRedItem` and `hasRedBattery` ask for one, and a few names ask about all items.
-/

namespace BlockRobot.Sensor

def totalNames : List String := ["batteryCount", "itemCount", "batteryCountAtTile", "itemCountAtTile"]

def anyItemNames : List String := ["hasItem", "isItemHere", "hasBattery", "isBatteryHere"]

def before? (ending : String) (cs : List Char) : Option (List Char) :=
  List.isSuffixOf? ending.toList cs

def after? (beginning : String) (cs : List Char) : Option (List Char) :=
  List.isPrefixOf? beginning.toList cs

/-- The color that a word of letters names. -/
def color? (cs : List Char) : Option String :=
  if !cs.isEmpty && cs.all Text.isLetter then some (Text.lower (String.ofList cs)) else none

def value? (tile : Tile) (name : String) : Option Nat :=
  if totalNames.contains name then some tile.count
  else do
    let word ← before? "BatteryCount" name.toList <|> before? "Count" name.toList
    let color ← color? word
    return tile.countOf color

/-- Whether a word starts with a capital letter of ASCII: `isGreen`, and not `island`. -/
def isCapitalized : List Char → Bool
  | c :: _ => c.isUpper
  | [] => false

def predicate? (tile : Tile) (name : String) : Option Bool :=
  if anyItemNames.contains name then some (decide (0 < tile.count))
  else do
    let rest ← after? "has" name.toList <|> after? "is" name.toList
    if isCapitalized rest then
      let word := (before? "Battery" rest <|> before? "Item" rest).getD rest
      let color ← color? word
      return decide (0 < tile.countOf color)
    else none

end BlockRobot.Sensor
