import BlockRobot.Program.Expr

/-!
# Conditions
-/

namespace BlockRobot

inductive CompareOp where
  | equal
  | notEqual
  | less
  | greater
  | lessEqual
  | greaterEqual
  deriving DecidableEq, Repr

namespace CompareOp

def symbol : CompareOp → String
  | .equal => "=="
  | .notEqual => "!="
  | .less => "<"
  | .greater => ">"
  | .lessEqual => "<="
  | .greaterEqual => ">="

/-- The operator of its own symbol only. -/
def ofSymbol? (s : String) : Option CompareOp :=
  [equal, notEqual, less, greater, lessEqual, greaterEqual].find? (·.symbol == s)

/-- The operator of a symbol; equality may be written with a single sign. -/
def parse? (s : String) : Option CompareOp := if s = "=" then some .equal else ofSymbol? s

theorem ofSymbol?_symbol (op : CompareOp) : ofSymbol? op.symbol = some op := by cases op <;> decide

def holds : CompareOp → Ordering → Bool
  | .equal, o => o == .eq
  | .notEqual, o => o != .eq
  | .less, o => o == .lt
  | .greater, o => o == .gt
  | .lessEqual, o => o != .gt
  | .greaterEqual, o => o != .lt

end CompareOp

/-- A test. `sensor` asks a named predicate about the robot's tile, and wants the answer `check`. -/
inductive Condition where
  | comparison (left : Expr) (operator : CompareOp) (right : Expr)
  | and (conditions : List Condition)
  | or (conditions : List Condition)
  | sensor (name : String) (check : Bool)

namespace Condition

mutual

def same : Condition → Condition → Bool
  | .comparison a op b, .comparison a' op' b' => a == a' && op == op' && b == b'
  | .and cs, .and cs' => sameList cs cs'
  | .or cs, .or cs' => sameList cs cs'
  | .sensor name check, .sensor name' check' => name == name' && check == check'
  | _, _ => false

def sameList : List Condition → List Condition → Bool
  | [], [] => true
  | c :: cs, c' :: cs' => same c c' && sameList cs cs'
  | _, _ => false

end

instance : BEq Condition := ⟨same⟩

end Condition

end BlockRobot
