import BlockRobot.Json.Value
import BlockRobot.Program.Basic
import BlockRobot.Text.Blank

/-!
# Operands and conditions of blocks

An operand that makes no sense is no operand; a condition that makes no sense leaves a warning. Both
are read in a single pass over the JSON value: to look a field up and to read it is one recursion.
-/

namespace BlockRobot.Block

open Json (Value field?)

def string? : Value → Option String
  | .str s => some s
  | _ => none

/-- The text under the first of the keys that is present. -/
def stringUnder? (keys : List String) (fields : Json.Fields) : Option String :=
  (keys.findSome? fun k => field? k fields).bind string?

/-- The number that a text spells, if it is finite. -/
def spelled? (s : String) : Option Float :=
  match Decimal.parse? s with
  | some d => if d.toFloat.isFinite then some d.toFloat else none
  | none => none

/-- A text is a number, or else a name. -/
def textOperand? (s : String) : Option Expr :=
  let s := Text.trim s
  if s.isEmpty then none
  else match spelled? s with
    | some x => some (.number x)
    | none => some (.var s)

/-- The argument of a query: a text, or a number as a text. -/
def argument? (fields : Json.Fields) : Option String :=
  match ["argument", "target"].findSome? fun k => field? k fields with
  | some (.str s) => some s
  | some (.num n) => some n.text
  | _ => none

def query? (fields : Json.Fields) : Option Expr :=
  (stringUnder? ["functionName", "name"] fields).map fun name => .query name (argument? fields)

mutual

def operand? : Value → Option Expr
  | .num n => some (.number n.toFloat)
  | .str s => textOperand? s
  | .obj fields =>
    let arithmetic : Option Expr := do
      let op ← (stringUnder? ["op", "operator"] fields).bind ArithOp.parse?
      let left ← operandUnder? "left" fields
      let right ← operandUnder? "right" fields
      return .arithmetic op left right
    match stringUnder? ["type"] fields with
    | some kind =>
      if kind = "number" || kind = "literal" then operandUnder? "value" fields
      else if kind = "variable" then (stringUnder? ["name", "variable"] fields).map .var
      else if kind = "arithmetic" then arithmetic
      else if kind = "function" || kind = "query" then query? fields
      else none
    | none =>
      if (field? "functionName" fields).isSome then query? fields
      else if (field? "op" fields).isSome then arithmetic
      else none
  | _ => none

def operandUnder? (key : String) : List (String × Value) → Option Expr
  | [] => none
  | (k, v) :: rest => if k = key then operand? v else operandUnder? key rest

end

/-! ## Conditions -/

def warning (path : Path) (message : String) : Warning := ⟨path.render, message⟩

def comparison (path : Path) (fields : Json.Fields) : Option Condition × List Warning :=
  let left := operandUnder? "variable" fields
  let operator := (stringUnder? ["operator"] fields).bind CompareOp.parse?
  let right := operandUnder? "value" fields
  match left, operator, right with
  | some left, some operator, some right => (some (.comparison left operator right), [])
  | _, none, _ => (none, [warning path "comparison has a missing or unknown operator"])
  | _, _, _ => (none, [warning path "comparison needs both a variable and a value"])

def sensor (path : Path) (fields : Json.Fields) : Option Condition × List Warning :=
  match stringUnder? ["functionName", "name"] fields with
  | none => (none, [warning path "sensor condition has no functionName"])
  | some name =>
    let check := match field? "check" fields with
      | some (.bool b) => b
      | _ => true
    (some (.sensor name check), [])

mutual

/-- The condition that a JSON value stands for, and the warnings on the way. -/
def condition (path : Path) : Value → Option Condition × List Warning
  | .obj fields =>
    let kind := (stringUnder? ["type"] fields).getD ""
    if kind = "comparison" || kind = "variableComparison" || kind = "compare" then
      comparison path fields
    else if kind = "and" || kind = "or" then
      match conditionsUnder? path "conditions" fields with
      | none => (none, [warning path ("'" ++ kind ++ "' condition has no conditions list")])
      | some (cs, ws) => (some (if kind = "and" then .and cs else .or cs), ws)
    else if kind = "sensor" || kind = "sensorCheck" then sensor path fields
    else (none, [warning path ("unknown condition type '" ++ kind ++ "'")])
  | _ => (none, [warning path "condition is not an object"])

/-- The conditions under `key`, if there is a list; those that make no sense are left out. -/
def conditionsUnder? (path : Path) (key : String) :
    List (String × Value) → Option (List Condition × List Warning)
  | [] => none
  | (k, v) :: rest =>
    if k = key then
      match v with
      | .arr items => some (conditions (path.field key) 0 items)
      | _ => none
    else conditionsUnder? path key rest

def conditions (path : Path) (i : Nat) : List Value → List Condition × List Warning
  | [] => ([], [])
  | v :: rest =>
    let (c, ws) := condition (path.index i) v
    let (cs, ws') := conditions path (i + 1) rest
    (c.toList ++ cs, ws ++ ws')

end

end BlockRobot.Block
