import BlockRobot.Program.Condition
import BlockRobot.World.Sensor

/-!
# Values of expressions and conditions

Evaluation never fails: an expression without a value has none, and a comparison with it is false.
-/

namespace BlockRobot

/-- The loop variables that a statement can see. -/
abbrev Bindings := Table Float

def ArithOp.apply (op : ArithOp) (a b : Float) : Option Float :=
  match op with
  | .add => some (a + b)
  | .sub => some (a - b)
  | .mul => some (a * b)
  | .div => if b == 0 then none else some (a / b)
  | .pow => some (Float.pow a b)

namespace Expr

def finite? (x : Float) : Option Float := if x.isFinite then some x else none

/-- A loop variable, or else a sensor variable. -/
def lookup (w : World) (env : Bindings) (name : String) : Option Float :=
  match env.get? name with
  | some x => some x
  | none => (Sensor.value? w.here name).map Float.ofNat

/-- The value of an expression, if it has one that is finite. -/
def value? (w : World) (env : Bindings) : Expr → Option Float
  | .number x => finite? x
  | .var name => (lookup w env name).bind finite?
  | .query name argument => ((w.query name argument).map Float.ofNat).bind finite?
  | .arithmetic op left right => do
    let a ← value? w env left
    let b ← value? w env right
    let x ← op.apply a b
    finite? x

end Expr

inductive Operand where
  | number (x : Float)
  | text (s : String)
  | missing

namespace Operand

def compareFloat (a b : Float) : Option Ordering :=
  if a < b then some .lt
  else if b < a then some .gt
  else if a == b then some .eq
  else none

def compareText (a b : String) : Ordering := if a < b then .lt else if b < a then .gt else .eq

/-- Numbers and texts have no order between them, and differ. -/
def compare (op : CompareOp) : Operand → Operand → Bool
  | .missing, _ => false
  | _, .missing => false
  | .number a, .number b => (compareFloat a b).any op.holds
  | .text a, .text b => op.holds (compareText a b)
  | _, _ => op == .notEqual

def ofLeft (w : World) (env : Bindings) (e : Expr) : Operand :=
  match e.value? w env with
  | some x => .number x
  | none => .missing

/-- The right side of a comparison, where a name without a value stands for itself. -/
def ofRight (w : World) (env : Bindings) (e : Expr) : Operand :=
  match e.value? w env, e with
  | some x, _ => .number x
  | none, .var name => .text name
  | none, _ => .missing

end Operand

namespace Condition

mutual

def holds (w : World) (env : Bindings) : Condition → Bool
  | .comparison left op right => Operand.compare op (.ofLeft w env left) (.ofRight w env right)
  | .and cs => allHold w env cs
  | .or cs => anyHolds w env cs
  | .sensor name check => (Sensor.predicate? w.here name).any (· == check)

def allHold (w : World) (env : Bindings) : List Condition → Bool
  | [] => true
  | c :: cs => holds w env c && allHold w env cs

def anyHolds (w : World) (env : Bindings) : List Condition → Bool
  | [] => false
  | c :: cs => holds w env c || anyHolds w env cs

end

end Condition

end BlockRobot
