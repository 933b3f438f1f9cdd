import BlockRobot.Decimal.Shortest
import BlockRobot.Entries

/-!
# JSON values

Integers that fit 64 bits stay exact; every other number is a double. The fields of an object keep
the order in which they were read.
-/

namespace BlockRobot.Json

inductive Number where
  | int (n : Int)
  | real (x : Float)
  deriving DecidableEq

inductive Value where
  | null
  | bool (b : Bool)
  | num (n : Number)
  | str (s : String)
  | arr (items : List Value)
  | obj (fields : List (String × Value))
  /-- A number out of range, or a text with half a surrogate pair: tolerated where nobody looks. -/
  | unreadable

instance : Inhabited Value := ⟨.null⟩

abbrev Fields := Entries Value

/-- Doubles from `10 ^ -5` up to `10 ^ 16` are written in full, the others as `1.5e+20`. -/
def Number.layout : Decimal.Layout := ⟨-5, 16, "e", "+"⟩

def Number.text : Number → String
  | .int n => toString n
  | .real x => (Decimal.shortest x).render layout

def Number.toFloat : Number → Float
  | .int n => Float.ofInt n
  | .real x => x

/-- A number as a value: a double is one only if it is finite. -/
def Value.ofNumber : Number → Value
  | .int n => .num (.int n)
  | .real x => if x.isFinite then .num (.real x) else .null

def field? (key : String) (fields : Fields) : Option Value := Entries.get? key fields

/-- The fields with one entry for each key; a later value replaces an earlier one. -/
def Fields.lastWins (fields : Fields) : Fields :=
  fields.foldl (fun acc f => Entries.put f.1 f.2 acc) []

end BlockRobot.Json
