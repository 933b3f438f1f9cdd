import BlockRobot.Program.Block.Operand

/-!
# Counting blocks

The blocks of a program are counted as they were written, in every list that a block can nest and
whether or not loading keeps them. What counts is a `type` that is a text.
-/

namespace BlockRobot.Block

open Json (Value field?)

def listKeys : List String := ["body", "bodyActions", "then", "thenActions", "else", "elseActions"]

def clauseKeys : List String := ["elseIf", "elseIfClauses"]

def own (fields : Json.Fields) : Nat := if (stringUnder? ["type"] fields).isSome then 1 else 0

mutual

def count : List Value → Nat
  | [] => 0
  | v :: rest => countBlock v + count rest

def countBlock : Value → Nat
  | .obj fields =>
    own fields + sumOver (fun k => (countUnder? k fields).getD 0) listKeys +
      sumOver (fun k => countClausesUnder k fields) clauseKeys
  | _ => 0

def countUnder? (key : String) : List (String × Value) → Option Nat
  | [] => none
  | (k, v) :: rest =>
    if k = key then
      match v with
      | .arr items => some (count items)
      | _ => none
    else countUnder? key rest

def countClausesUnder (key : String) : List (String × Value) → Nat
  | [] => 0
  | (k, v) :: rest =>
    if k = key then
      match v with
      | .arr items => countClauses items
      | _ => 0
    else countClausesUnder key rest

def countClauses : List Value → Nat
  | [] => 0
  | v :: rest => countClause v + countClauses rest

def countClause : Value → Nat
  | .obj fields =>
    own fields + ((["then", "thenActions"].findSome? fun k => countUnder? k fields).getD 0)
  | _ => 0

end

end BlockRobot.Block
