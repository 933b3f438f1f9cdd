import BlockRobot.Decimal.Basic
import BlockRobot.Text.Blank

/-!
# Positions and directions

`y` grows downwards, so that a step to the north lowers it.
-/

namespace BlockRobot

inductive Direction where
  | north
  | east
  | south
  | west
  deriving DecidableEq, Repr

namespace Direction

def all : List Direction := [.north, .east, .south, .west]

def name : Direction → String
  | .north => "north"
  | .east => "east"
  | .south => "south"
  | .west => "west"

def ofName? (s : String) : Option Direction := all.find? (·.name == s)

theorem ofName?_name (d : Direction) : ofName? d.name = some d := by cases d <;> decide

def left : Direction → Direction
  | .north => .west
  | .west => .south
  | .south => .east
  | .east => .north

def back : Direction → Direction
  | .north => .south
  | .south => .north
  | .east => .west
  | .west => .east

def right (d : Direction) : Direction := d.left.back

theorem right_left (d : Direction) : d.left.right = d := by cases d <;> rfl

end Direction

structure Position where
  x : Int
  y : Int
  deriving DecidableEq, Repr

namespace Position

def step (p : Position) : Direction → Position
  | .north => ⟨p.x, p.y - 1⟩
  | .east => ⟨p.x + 1, p.y⟩
  | .south => ⟨p.x, p.y + 1⟩
  | .west => ⟨p.x - 1, p.y⟩

def render (p : Position) : String := "(" ++ toString p.x ++ ", " ++ toString p.y ++ ")"

/-- By `x`, then by `y`. -/
def before (p q : Position) : Bool := decide (p.x < q.x) || (p.x == q.x && decide (p.y < q.y))

/-- The range of a coordinate that is read from a text or a file. -/
def minCoordinate : Int := -2147483648

def maxCoordinate : Int := 2147483647

/-- Reads `x,y`, with blanks around the numbers. -/
def parse? (s : String) : Option Position :=
  let cs := s.toList
  let number? (cs : List Char) : Option Int :=
    Decimal.wholeNumber? minCoordinate maxCoordinate (Text.trimChars cs)
  match cs.dropWhile (· != ',') with
  | [] => none
  | _ :: rest => do return ⟨← number? (cs.takeWhile (· != ',')), ← number? rest⟩

end Position

end BlockRobot
