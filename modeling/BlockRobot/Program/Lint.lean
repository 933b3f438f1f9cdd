import BlockRobot.Program.Basic

/-!
# Problems visible before a run

Three rules flag statements that fail as soon as a run reaches them, and a fourth flags two box
actions of one kind in a row.
-/

namespace BlockRobot

inductive Severity where
  | error
  | warning
  deriving DecidableEq, Repr

inductive Problem where
  | consecutiveBoxAction (kind : Kind)
  | emptyWhile
  | zeroStep (counter? : Option String)
  | undefinedFunction (name : String) (defined : List String)
  deriving DecidableEq, Repr

namespace Problem

def message : Problem → String
  | .consecutiveBoxAction kind => "Two " ++ kind.tag ++ " blocks in a row are not allowed"
  | .emptyWhile => "while loop has an empty body and fails as soon as its condition is true"
  | .zeroStep counter? =>
    "repeatRange over '" ++ counter?.getD "?" ++ "' has a step of 0 and never finishes"
  | .undefinedFunction name _ => "Function '" ++ name ++ "' is not defined"

def severity : Problem → Severity
  | .emptyWhile => .warning
  | _ => .error

def hint? : Problem → Option String
  | .consecutiveBoxAction kind => some ("Use a single " ++ kind.tag ++ " with a larger count")
  | .emptyWhile => some "Add at least one block inside the loop"
  | .zeroStep _ => none
  | .undefinedFunction _ defined =>
    if defined.isEmpty then none else some ("Defined functions: " ++ ", ".intercalate defined)

end Problem

/-- A problem and the place in the loaded tree that it is about. -/
structure Issue where
  path : Path
  problem : Problem
  deriving DecidableEq, Repr

namespace Lint

/-- Two box actions of one kind in a row, at the second of them. -/
def boxPairs (path : Path) (i : Nat) : List Statement → List Issue
  | s :: t :: rest =>
    let here := if s.kind.isBoxAction && s.kind == t.kind
      then [⟨path.index (i + 1), .consecutiveBoxAction s.kind⟩] else []
    here ++ boxPairs path (i + 1) (t :: rest)
  | _ => []

def ownProblem? (functions : Table Function) : Statement → Option Problem
  | .whileLoop _ [] => some .emptyWhile
  | .repeatRange head _ =>
    match head.step.number? with
    | some x => if x == 0 then some (.zeroStep head.counter?) else none
    | none => none
  | .call name =>
    if functions.contains name then none else some (.undefinedFunction name functions.keys)
  | _ => none

def own (functions : Table Function) (path : Path) (s : Statement) : List Issue :=
  (ownProblem? functions s).toList.map fun p => ⟨path, p⟩

mutual

/-- The issues of a statement at `path` and of all that it nests. -/
def statement (functions : Table Function) (path : Path) : Statement → List Issue
  | .repeatRange head body =>
    own functions path (.repeatRange head body) ++
      boxPairs (path.field "body") 0 body ++ statements functions (path.field "body") 0 body
  | .ifElse _ thenBody elseIfs elseBody =>
    boxPairs (path.field "then") 0 thenBody ++ statements functions (path.field "then") 0 thenBody ++
      clauses functions path 0 elseIfs ++
      (boxPairs (path.field "else") 0 elseBody ++ statements functions (path.field "else") 0 elseBody)
  | .whileLoop c body =>
    own functions path (.whileLoop c body) ++
      boxPairs (path.field "body") 0 body ++ statements functions (path.field "body") 0 body
  | s => own functions path s

def statements (functions : Table Function) (path : Path) (i : Nat) : List Statement → List Issue
  | [] => []
  | s :: rest =>
    statement functions (path.index i) s ++ statements functions path (i + 1) rest

def clauses (functions : Table Function) (path : Path) (i : Nat) :
    List (Condition × List Statement) → List Issue
  | [] => []
  | (_, body) :: rest =>
    boxPairs (Statement.elseIfPath path i) 0 body ++
      statements functions (Statement.elseIfPath path i) 0 body ++
      clauses functions path (i + 1) rest

end

def body (functions : Table Function) (path : Path) (statements : List Statement) : List Issue :=
  boxPairs path 0 statements ++ Lint.statements functions path 0 statements

end Lint

/-- All issues of a program: those of its actions, then those of its functions. -/
def Program.lint (p : Program) : List Issue :=
  Lint.body p.functions (.ofRoot "actions") p.actions ++
    p.functions.entries.flatMap fun e =>
      Lint.body p.functions ((Path.ofRoot "functions").field e.1) e.2.body

end BlockRobot
