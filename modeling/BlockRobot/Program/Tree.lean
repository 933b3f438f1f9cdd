import BlockRobot.Json.Decode
import BlockRobot.Program.Basic

/-!
# The tree form of a program

A loaded program as a JSON value, and back. Every statement, condition and expression is a node: an
object with a `type` and fields. A reader also takes a node as the list of its type and its fields in
order, and inside another node it takes the number of a type for its name.
-/

namespace BlockRobot.Tree

open Json (Value Decoder field?)

def text (s : String) : Value := .str s

def nat (n : Nat) : Value := .num (.int n)

def orNull : Option String → Value
  | some s => .str s
  | none => .null

def texts (ss : List String) : Value := .arr (ss.map .str)

def kinds (s : KindSet) : Value := .arr (s.toList.map fun k => .str k.tag)

def node (type : String) (fields : List (String × Value)) : Value := .obj (("type", .str type) :: fields)

/-! ## Writing -/

def ofExpr : Expr → Value
  | .number x => node "number" [("value", .ofNumber (.real x))]
  | .var name => node "variable" [("name", .str name)]
  | .query name argument => node "query" [("name", .str name), ("argument", orNull argument)]
  | .arithmetic op left right =>
    node "arithmetic" [("op", .str op.symbol), ("left", ofExpr left), ("right", ofExpr right)]

mutual

def ofCondition : Condition → Value
  | .comparison left op right =>
    node "comparison"
      [("variable", ofExpr left), ("operator", .str op.symbol), ("value", ofExpr right)]
  | .and cs => node "and" [("conditions", .arr (ofConditions cs))]
  | .or cs => node "or" [("conditions", .arr (ofConditions cs))]
  | .sensor name check => node "sensor" [("name", .str name), ("check", .bool check)]

def ofConditions : List Condition → List Value
  | [] => []
  | c :: rest => ofCondition c :: ofConditions rest

end

def loopFields (head : LoopHead) (body : List Value) : List (String × Value) :=
  [("variable", orNull head.counter?), ("from", ofExpr head.first), ("to", ofExpr head.last),
    ("step", ofExpr head.step), ("body", .arr body)]

mutual

def ofStatement : Statement → Value
  | .forward count => node "forward" [("count", ofExpr count)]
  | .turnLeft => node "turnLeft" []
  | .turnRight => node "turnRight" []
  | .turnBack => node "turnBack" []
  | .collect count colors => node "collect" [("count", ofExpr count), ("colors", texts colors)]
  | .putBox count => node "putBox" [("count", ofExpr count)]
  | .takeBox count => node "takeBox" [("count", ofExpr count)]
  | .repeatRange head body => node "repeatRange" (loopFields head (ofStatements body))
  | .ifElse c thenBody elseIfs elseBody =>
    node "if"
      [("condition", ofCondition c), ("thenActions", .arr (ofStatements thenBody)),
        ("elseIfs", .arr (ofClauses elseIfs)), ("elseActions", .arr (ofStatements elseBody))]
  | .whileLoop c body =>
    node "while" [("condition", ofCondition c), ("body", .arr (ofStatements body))]
  | .call name => node "callFunction" [("name", .str name)]

def ofStatements : List Statement → List Value
  | [] => []
  | s :: rest => ofStatement s :: ofStatements rest

def ofClauses : List (Condition × List Statement) → List Value
  | [] => []
  | (c, body) :: rest =>
    .obj [("condition", ofCondition c), ("thenActions", .arr (ofStatements body))] :: ofClauses rest

end

def ofFunction (f : Function) : Value :=
  .obj [("name", .str f.name), ("body", .arr (ofStatements f.body))]

def ofWarning (w : Warning) : Value := .obj [("path", .str w.path), ("message", .str w.message)]

def ofProgram (p : Program) : Value :=
  .obj [("version", .str p.version), ("name", orNull p.name),
    ("functions", .obj (p.functions.entries.map fun e => (e.1, ofFunction e.2))),
    ("actions", .arr (ofStatements p.actions)), ("blockCount", nat p.blockCount),
    ("unrolled", kinds p.unrolled), ("warnings", .arr (p.warnings.map ofWarning))]

/-! ## Reading -/

def exprTypes : List String := ["number", "variable", "query", "arithmetic"]

def conditionTypes : List String := ["comparison", "and", "or", "sensor"]

/-- The types of the statements that a loaded program has. -/
def statementTypes : List String := (Kind.all.filter (· != .repeatTimes)).map Kind.tag

/-- The type of a node. Only `inside` another node is it given by its number. -/
def type? (inside : Bool) (types : List String) : Decoder String
  | .str name => some name
  | .num (.int (.ofNat n)) => if inside then types[n]? else none
  | _ => none

/-- The symbol of an operator: like a tag, but an empty object under it is as good as a null. -/
def symbol : Decoder String
  | .obj [(name, .obj [])] => some name
  | v => Json.tag v

mutual

def expr? (inside : Bool) : Value → Option Expr
  | .obj fields => do
    let type ← Json.required "type" (type? inside exprTypes) fields
    if type = "number" then return .number (← Json.required "value" Json.double fields)
    else if type = "variable" then return .var (← Json.required "name" Json.string fields)
    else if type = "query" then
      return .query (← Json.required "name" Json.string fields)
        (← Json.optional "argument" Json.string fields)
    else if type = "arithmetic" then
      let op ← (← Json.required "op" symbol fields) |> ArithOp.ofSymbol?
      return .arithmetic op (← exprUnder? "left" fields) (← exprUnder? "right" fields)
    else none
  | .arr [type, v] => do
    let type ← type? inside exprTypes type
    if type = "number" then return .number (← Json.double v)
    else if type = "variable" then return .var (← Json.string v)
    else none
  | .arr [type, name, argument] => do
    if (← type? inside exprTypes type) = "query" then
      return .query (← Json.string name) (← Json.nullable Json.string argument)
    else none
  | .arr [type, op, left, right] => do
    if (← type? inside exprTypes type) = "arithmetic" then
      let op ← (← symbol op) |> ArithOp.ofSymbol?
      return .arithmetic op (← expr? true left) (← expr? true right)
    else none
  | _ => none

def exprUnder? (key : String) : List (String × Value) → Option Expr
  | [] => none
  | (k, v) :: rest => if k = key then expr? true v else exprUnder? key rest

end

mutual

/-- A condition, which always stands inside a statement. -/
def condition? : Value → Option Condition
  | .obj fields => do
    let type ← Json.required "type" (type? true conditionTypes) fields
    if type = "comparison" then
      let op ← (← Json.required "operator" symbol fields) |> CompareOp.ofSymbol?
      return .comparison (← exprUnder? "variable" fields) op (← exprUnder? "value" fields)
    else if type = "and" then return .and (← conditionsUnder? "conditions" fields)
    else if type = "or" then return .or (← conditionsUnder? "conditions" fields)
    else if type = "sensor" then
      return .sensor (← Json.required "name" Json.string fields)
        (← Json.required "check" Json.boolean fields)
    else none
  | .arr [type, .arr items] => do
    let type ← type? true conditionTypes type
    if type = "and" then return .and (← conditions? items)
    else if type = "or" then return .or (← conditions? items)
    else none
  | .arr [type, name, check] => do
    if (← type? true conditionTypes type) = "sensor" then
      return .sensor (← Json.string name) (← Json.boolean check)
    else none
  | .arr [type, left, op, right] => do
    if (← type? true conditionTypes type) = "comparison" then
      let op ← (← symbol op) |> CompareOp.ofSymbol?
      return .comparison (← expr? true left) op (← expr? true right)
    else none
  | _ => none

def conditionsUnder? (key : String) : List (String × Value) → Option (List Condition)
  | [] => none
  | (k, v) :: rest =>
    if k = key then
      match v with
      | .arr items => conditions? items
      | _ => none
    else conditionsUnder? key rest

def conditions? : List Value → Option (List Condition)
  | [] => some []
  | v :: rest => do return (← condition? v) :: (← conditions? rest)

end

/-- The head of a loop; its bounds may stand `inside` a statement, or not. -/
def loopHead? (inside : Bool) (fields : Json.Fields) : Option LoopHead := do
  return ⟨← Json.optional "variable" Json.string fields,
    ← Json.required "from" (expr? inside) fields, ← Json.required "to" (expr? inside) fields,
    ← Json.required "step" (expr? inside) fields⟩

mutual

def statement? (inside : Bool) : Value → Option Statement
  | .obj fields => do
    let type ← Json.required "type" (type? inside statementTypes) fields
    let count := exprUnder? "count" fields
    if type = "forward" then return .forward (← count)
    else if type = "turnLeft" then return .turnLeft
    else if type = "turnRight" then return .turnRight
    else if type = "turnBack" then return .turnBack
    else if type = "collect" then
      return .collect (← count) (← Json.required "colors" (Json.list Json.string) fields)
    else if type = "putBox" then return .putBox (← count)
    else if type = "takeBox" then return .takeBox (← count)
    else if type = "repeatRange" then
      return .repeatRange (← loopHead? true fields) (← statementsUnder? "body" fields)
    else if type = "if" then
      return .ifElse (← Json.required "condition" condition? fields)
        (← statementsUnder? "thenActions" fields) (← clausesUnder? "elseIfs" fields)
        (← statementsUnder? "elseActions" fields)
    else if type = "while" then
      return .whileLoop (← Json.required "condition" condition? fields)
        (← statementsUnder? "body" fields)
    else if type = "callFunction" then return .call (← Json.required "name" Json.string fields)
    else none
  | .arr [type] => do
    let type ← type? inside statementTypes type
    if type = "turnLeft" then return .turnLeft
    else if type = "turnRight" then return .turnRight
    else if type = "turnBack" then return .turnBack
    else none
  | .arr [type, v] => do
    let type ← type? inside statementTypes type
    if type = "forward" then return .forward (← expr? true v)
    else if type = "putBox" then return .putBox (← expr? true v)
    else if type = "takeBox" then return .takeBox (← expr? true v)
    else if type = "callFunction" then return .call (← Json.string v)
    else none
  | .arr [type, v, .arr items] => do
    let type ← type? inside statementTypes type
    if type = "collect" then return .collect (← expr? true v) (← items.mapM Json.string)
    else if type = "while" then return .whileLoop (← condition? v) (← statements? true items)
    else none
  | .arr [type, c, .arr thenBody, .arr elseIfs, .arr elseBody] => do
    if (← type? inside statementTypes type) = "if" then
      return .ifElse (← condition? c) (← statements? true thenBody) (← clauses? elseIfs)
        (← statements? true elseBody)
    else none
  | .arr [type, name, first, last, step, .arr body] => do
    if (← type? inside statementTypes type) = "repeatRange" then
      return .repeatRange ⟨← Json.nullable Json.string name, ← expr? true first, ← expr? true last,
        ← expr? true step⟩ (← statements? true body)
    else none
  | _ => none

def statementsUnder? (key : String) : List (String × Value) → Option (List Statement)
  | [] => none
  | (k, v) :: rest =>
    if k = key then
      match v with
      | .arr items => statements? true items
      | _ => none
    else statementsUnder? key rest

def statements? (inside : Bool) : List Value → Option (List Statement)
  | [] => some []
  | v :: rest => do return (← statement? inside v) :: (← statements? inside rest)

def clausesUnder? (key : String) :
    List (String × Value) → Option (List (Condition × List Statement))
  | [] => none
  | (k, v) :: rest =>
    if k = key then
      match v with
      | .arr items => clauses? items
      | _ => none
    else clausesUnder? key rest

def clauses? : List Value → Option (List (Condition × List Statement))
  | [] => some []
  | v :: rest => do return (← clause? v) :: (← clauses? rest)

def clause? : Value → Option (Condition × List Statement)
  | .obj fields => do
    return (← Json.required "condition" condition? fields, ← statementsUnder? "thenActions" fields)
  | .arr [c, .arr body] => do return (← condition? c, ← statements? true body)
  | _ => none

end

def statementList : Decoder (List Statement)
  | .arr items => statements? false items
  | _ => none

def kind : Decoder Kind := fun v => (Json.tag v).bind Kind.ofTag?

def kindSet : Decoder KindSet := fun v => (Json.list kind v).map KindSet.ofList

/-- A loop and its body, without a `type`. -/
def loop? (v : Value) : Option (LoopHead × List Statement) := do
  let fields ← Json.record ["variable", "from", "to", "step", "body"] v
  return (← loopHead? false fields, ← Json.required "body" statementList fields)

def function? (v : Value) : Option Function := do
  let fields ← Json.record ["name", "body"] v
  return ⟨← Json.required "name" Json.string fields, ← Json.required "body" statementList fields⟩

def warning? (v : Value) : Option Warning := do
  let fields ← Json.record ["path", "message"] v
  return ⟨← Json.required "path" Json.string fields, ← Json.required "message" Json.string fields⟩

/-- The program of a tree. Its functions are taken by ascending key. -/
def program? (v : Value) : Option Program := do
  let fields ← Json.record
    ["version", "name", "functions", "actions", "blockCount", "unrolled", "warnings"] v
  let functions ← Json.required "functions" (Json.table function?) fields
  return {
    version := ← Json.required "version" Json.string fields
    name := ← Json.optional "name" Json.string fields
    functions := functions.sorted
    actions := ← Json.required "actions" statementList fields
    blockCount := ← Json.required "blockCount" Json.size fields
    unrolled := ← Json.required "unrolled" kindSet fields
    warnings := ← Json.required "warnings" (Json.list warning?) fields }

/-- Whether a program comes back from its tree form unchanged, but for the order of its functions. -/
def roundTrips (p : Program) : Bool :=
  match program? (ofProgram p) with
  | some q => q == { p with functions := p.functions.sorted }
  | none => false

end BlockRobot.Tree
