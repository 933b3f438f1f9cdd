import BlockRobot.Sum
import BlockRobot.Table

/-!
# Tallies

A tally counts items by color. A color that it does not list counts zero.
-/

namespace BlockRobot

abbrev Tally := Table Nat

namespace Tally

def of (t : Tally) (color : String) : Nat := (t.get? color).getD 0

def total (t : Tally) : Nat := sumOver Prod.snd t.entries

def bump (t : Tally) (color : String) : Tally := t.insert color (t.of color + 1)

theorem of_bump (t : Tally) (color other : String) :
    (t.bump color).of other = if color = other then t.of other + 1 else t.of other := by
  by_cases h : color = other
  · subst h; simp [of, bump, Table.get?_insert]
  · simp [of, bump, Table.get?_insert, h]

theorem total_bump (t : Tally) (color : String) : (t.bump color).total = t.total + 1 := by
  have hput : ∀ es : Entries Nat,
      sumOver Prod.snd (Entries.put color ((Entries.get? color es).getD 0 + 1) es) =
        sumOver Prod.snd es + 1 := by
    intro es
    induction es with
    | nil => rfl
    | cons e rest ih =>
      obtain ⟨c, n⟩ := e
      by_cases h : c = color
      · simp only [Entries.put, Entries.get?, h, if_true, Option.getD_some, sumOver]
        omega
      · simp only [Entries.put, Entries.get?, h, if_false, sumOver, ih, Nat.add_assoc]
  exact hput t.entries

end Tally

/-- The available items of a tile, in all and by color. -/
structure Tile where
  count : Nat
  colors : Tally
  deriving DecidableEq, Repr

namespace Tile

def empty : Tile := ⟨0, .empty⟩

def add (t : Tile) (color : String) : Tile := ⟨t.count + 1, t.colors.bump color⟩

def countOf (t : Tile) (color : String) : Nat := t.colors.of color

/-- The number of items of the given colors; of all items if no color is given. -/
def matching (t : Tile) (colors : List String) : Nat :=
  if colors.isEmpty then t.count else sumOver t.countOf colors

end Tile

/-- What the robot has gathered and moved. -/
structure Inventory where
  collected : Tally
  boxesCarried : Nat
  boxesPlaced : Nat
  deriving DecidableEq, Repr

def Inventory.empty : Inventory := ⟨.empty, 0, 0⟩

end BlockRobot
