import BlockRobot.Program.Block.Operand
import BlockRobot.Program.LoadError
import BlockRobot.Text.Case

/-!
# From blocks to statements

A block becomes one statement, or none with a warning, or, if it is a `repeat`, its body written
out as often as it says. Only the size of what is written out can make the reading fail.
-/

namespace BlockRobot.Block

open Json (Value field?)

/-- What a reading gathers beside the statements; `spent` counts the statements written out. -/
structure Ledger where
  warnings : List Warning
  unrolled : KindSet
  spent : Nat

abbrev Load := StateT Ledger (Except LoadError)

def warnAll (ws : List Warning) : Load Unit :=
  modify fun l => { l with warnings := l.warnings ++ ws }

def warn (path : Path) (message : String) : Load Unit := warnAll [warning path message]

def drop (path : Path) (message : String) : Load (List Statement) := do
  warn path message
  return []

/-! ## Fields of a block -/

/-- The operand under `key`; one if there is none, or, with the warning `message`, if it is none. -/
def operandOrOne (path : Path) (key : String) (message : String) (fields : Json.Fields) : Load Expr :=
  match field? key fields with
  | none | some .null => pure .one
  | some v =>
    match operand? v with
    | some e => pure e
    | none => do
      warn path message
      return .one

def countField (path : Path) (fields : Json.Fields) : Load Expr :=
  operandOrOne path "count" "count is not a number or expression; using 1" fields

def boundField (path : Path) (key : String) (fields : Json.Fields) : Load Expr :=
  operandOrOne path key ("'" ++ key ++ "' is not a number or expression; using 1") fields

/-- A whole number that is not negative, as a number or as a text. -/
def wholeCount? (v : Value) : Option Nat :=
  let x? := match v with
    | .num n => some n.toFloat
    | .str s => (Decimal.parse? (Text.trim s)).map Decimal.toFloat
    | _ => none
  match x? with
  | some x =>
    -- From `2 ^ 53` on every double is whole.
    let isWhole := x ≥ 9007199254740992 || Float.ofNat x.toUInt64.toNat == x
    if x.isFinite && x ≥ 0 && isWhole then some x.toUInt64.toNat else none
  | none => none

def repeatCount (path : Path) (fields : Json.Fields) : Load Nat :=
  match field? "count" fields with
  | none => pure 1
  | some v =>
    match wholeCount? v with
    | some n => pure n
    | none => do
      warn path "repeat count is not a whole number; using 1"
      return 1

/-- Adds a color in lower case and without blanks, unless it is empty or known. -/
def addColor (colors : List String) (color : String) : List String :=
  let color := Text.lower (Text.trim color)
  if color.isEmpty || colors.contains color then colors else colors ++ [color]

def colorsField (fields : Json.Fields) : List String :=
  let single := (stringUnder? ["color"] fields).toList
  let many := match field? "colors" fields with
    | some (.arr items) => items.filterMap string?
    | _ => []
  (single ++ many).foldl addColor []

/-- The condition under `condition`, with its warnings on the ledger. -/
def conditionField (path : Path) (fields : Json.Fields) : Load (Option Condition) :=
  match field? "condition" fields with
  | none => pure none
  | some v => do
    let (c, ws) := condition (path.field "condition") v
    warnAll ws
    return c

/-! ## Statements -/

def demand (limit : Option Nat) (n : Nat) : Load Unit :=
  match limit with
  | some k => if k < n then throw (.expansionLimit k) else pure ()
  | none => pure ()

/-- Charges for `rounds` copies of a list of `length` statements. What is charged stops at `maxCount`. -/
def spend (limit : Option Nat) (rounds length : Nat) : Load Unit := do
  demand limit rounds
  modify fun l => { l with spent := min (l.spent + min (rounds * length) maxCount) maxCount }
  demand limit (← get).spent

/-- Writes a loop out if its rounds are known and fit into `limit`; keeps it otherwise. -/
def writeOut (limit : Option Nat) (kind : Kind) (head : LoopHead) (body : List Statement) :
    Load (List Statement) :=
  match head.staticCount with
  | none => pure [.repeatRange head body]
  | some rounds => do
    modify fun l => { l with unrolled := l.unrolled.insert kind }
    if body.isEmpty || rounds = 0 then return []
    else do
      spend limit rounds body.length
      return (List.replicate rounds body).flatten

def orEmpty {α : Type} (found : Option (Load (List α))) : Load (List α) := found.getD (pure [])

mutual

/-- The statements of a list of blocks at `path`, of which the first has the index `i`. -/
def statements (limit : Option Nat) (path : Path) (i : Nat) : List Value → Load (List Statement)
  | [] => pure []
  | v :: rest => do
    let here ← statement limit (path.index i) v
    let others ← statements limit path (i + 1) rest
    return here ++ others

/-- The statements of the block at `path`. -/
def statement (limit : Option Nat) (path : Path) : Value → Load (List Statement)
  | .obj fields =>
    let body : Load (List Statement) :=
      orEmpty (statementsUnder? limit (path.field "body") "body" fields <|>
        statementsUnder? limit (path.field "body") "bodyActions" fields)
    match stringUnder? ["type"] fields with
    | none => drop path "block has no type; ignored"
    | some kind =>
      if kind = "forward" || kind = "moveForward" then do
        return [.forward (← countField path fields)]
      else if kind = "turnLeft" then pure [.turnLeft]
      else if kind = "turnRight" then pure [.turnRight]
      else if kind = "turnBack" || kind = "turnAround" then pure [.turnBack]
      else if kind = "collect" then do
        return [.collect (← countField path fields) (colorsField fields)]
      else if kind = "putBox" then do
        return [.putBox (← countField path fields)]
      else if kind = "takeBox" then do
        return [.takeBox (← countField path fields)]
      else if kind = "repeat" then do
        let n ← repeatCount path fields
        writeOut limit .repeatTimes (.times n) (← body)
      else if kind = "repeatRange" then
        match stringUnder? ["variable"] fields with
        | none => drop path "repeatRange has no variable; ignored"
        | some name => do
          let first ← boundField path "from" fields
          let last ← boundField path "to" fields
          let step ← boundField path "step" fields
          writeOut limit .repeatRange ⟨some name, first, last, step⟩ (← body)
      else if kind = "if" then do
        match ← conditionField path fields with
        | none => drop path "if block has no valid condition; ignored"
        | some c =>
          let thenBody ← orEmpty (statementsUnder? limit (path.field "then") "then" fields <|>
            statementsUnder? limit (path.field "then") "thenActions" fields)
          let elseIfs ← orEmpty (clausesUnder? limit path "elseIf" fields <|>
            clausesUnder? limit path "elseIfClauses" fields)
          let elseBody ← orEmpty (statementsUnder? limit (path.field "else") "else" fields <|>
            statementsUnder? limit (path.field "else") "elseActions" fields)
          return [.ifElse c thenBody elseIfs elseBody]
      else if kind = "while" then do
        match ← conditionField path fields with
        | none => drop path "while block has no valid condition; ignored"
        | some c => return [.whileLoop c (← body)]
      else if kind = "callFunction" then
        match stringUnder? ["functionName", "name"] fields with
        | some name => pure [.call name]
        | none => drop path "callFunction has no functionName; ignored"
      else drop path ("unknown block type '" ++ kind ++ "'; ignored")
  | _ => drop path "block is not an object; ignored"

/-- The statements of the list under `key`, if there is one; they stand at `path`. -/
def statementsUnder? (limit : Option Nat) (path : Path) (key : String) :
    List (String × Value) → Option (Load (List Statement))
  | [] => none
  | (k, v) :: rest =>
    if k = key then
      match v with
      | .arr items => some (statements limit path 0 items)
      | _ => none
    else statementsUnder? limit path key rest

/-- The else-if clauses under `key`, if there is a list, of the block at `path`. -/
def clausesUnder? (limit : Option Nat) (path : Path) (key : String) :
    List (String × Value) → Option (Load (List (Condition × List Statement)))
  | [] => none
  | (k, v) :: rest =>
    if k = key then
      match v with
      | .arr items => some (clauses limit (path.field "elseIf") 0 items)
      | _ => none
    else clausesUnder? limit path key rest

def clauses (limit : Option Nat) (path : Path) (i : Nat) :
    List Value → Load (List (Condition × List Statement))
  | [] => pure []
  | v :: rest => do
    let here ← clause limit (path.index i) v
    let others ← clauses limit path (i + 1) rest
    return here.toList ++ others

def clause (limit : Option Nat) (path : Path) :
    Value → Load (Option (Condition × List Statement))
  | .obj fields => do
    match ← conditionField path fields with
    | none =>
      warn path "elseIf clause has no valid condition; ignored"
      return none
    | some c =>
      let body ← orEmpty (statementsUnder? limit (path.field "then") "then" fields <|>
        statementsUnder? limit (path.field "then") "thenActions" fields)
      return some (c, body)
  | _ => do
    warn path "elseIf clause is not an object; ignored"
    return none

end

end BlockRobot.Block
