/-!
# Expressions

A numeric operand is a number, a name, a question to the world, or an arithmetic combination.
-/

namespace BlockRobot

inductive ArithOp where
  | add
  | sub
  | mul
  | div
  | pow
  deriving DecidableEq, Repr

namespace ArithOp

def symbol : ArithOp → String
  | .add => "+"
  | .sub => "-"
  | .mul => "*"
  | .div => "/"
  | .pow => "^"

/-- The operator of a symbol; multiplication and division have other spellings too. -/
def parse? : String → Option ArithOp
  | "+" => some .add
  | "-" => some .sub
  | "*" | "x" | "×" => some .mul
  | "/" | "÷" => some .div
  | "^" => some .pow
  | _ => none

/-- The operator of its own symbol only. -/
def ofSymbol? (s : String) : Option ArithOp := [add, sub, mul, div, pow].find? (·.symbol == s)

theorem ofSymbol?_symbol (op : ArithOp) : ofSymbol? op.symbol = some op := by cases op <;> decide

end ArithOp

inductive Expr where
  | number (value : Float)
  | var (name : String)
  | query (name : String) (argument : Option String)
  | arithmetic (op : ArithOp) (left right : Expr)
  deriving DecidableEq

namespace Expr

def number? : Expr → Option Float
  | .number value => some value
  | _ => none

def one : Expr := .number 1

end Expr

end BlockRobot
