import BlockRobot.Program.Statement
import BlockRobot.Sum
import BlockRobot.Table

/-!
# Programs
-/

namespace BlockRobot

structure Function where
  name : String
  body : List Statement
  deriving BEq

/-- A problem that loading a program recovered from. -/
structure Warning where
  path : String
  message : String
  deriving DecidableEq, Repr

def Warning.text (w : Warning) : String := w.path ++ ": " ++ w.message

/-- A loaded program. `blockCount` counts the blocks as they were written, `unrolled` holds the
kinds of blocks that loading wrote out. -/
structure Program where
  version : String
  name : Option String
  functions : Table Function
  actions : List Statement
  blockCount : Nat
  unrolled : KindSet
  warnings : List Warning
  deriving BEq

namespace Program

def function? (p : Program) (name : String) : Option Function := p.functions.get? name

def bodies (p : Program) : List (List Statement) := p.actions :: p.functions.entries.map (·.2.body)

/-- The number of statements, nested ones and those of the functions included. -/
def nodeCount (p : Program) : Nat := sumOver (fun b => (Statement.nodesOf b).length) p.bodies

end Program

end BlockRobot
