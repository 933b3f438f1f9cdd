import BlockRobot.Path
import BlockRobot.Program.Condition
import BlockRobot.Program.Kind
import BlockRobot.Program.Span

/-!
# Statements

The tree of a loaded program. A statement nests others in the body of a loop and in the branches of
a conditional; `nodes` and `places` list them depth first.
-/

namespace BlockRobot

/-- The bounds of a counted loop, and the name that its value goes by. -/
structure LoopHead where
  counter? : Option String
  first : Expr
  last : Expr
  step : Expr
  deriving DecidableEq

namespace LoopHead

def times (n : Nat) : LoopHead :=
  let span : Span Float := .times n
  ⟨none, .number span.first, .number span.last, .number span.step⟩

/-- The bounds, if all of them are numbers and no name is bound: such a loop can be written out. -/
def static? (l : LoopHead) : Option (Span Float) :=
  match l.counter?, l.first.number?, l.last.number?, l.step.number? with
  | none, some first, some last, some step => some ⟨first, last, step⟩
  | _, _, _, _ => none

def isStatic (l : LoopHead) : Bool := l.static?.isSome

def staticCount (l : LoopHead) : Option Nat := l.static?.bind Span.count

end LoopHead

inductive Statement where
  | forward (count : Expr)
  | turnLeft
  | turnRight
  | turnBack
  | collect (count : Expr) (colors : List String)
  | putBox (count : Expr)
  | takeBox (count : Expr)
  | repeatRange (head : LoopHead) (body : List Statement)
  | ifElse (condition : Condition) (thenBody : List Statement)
      (elseIfs : List (Condition × List Statement)) (elseBody : List Statement)
  | whileLoop (condition : Condition) (body : List Statement)
  | call (name : String)

namespace Statement

def kind : Statement → Kind
  | .forward _ => .forward
  | .turnLeft => .turnLeft
  | .turnRight => .turnRight
  | .turnBack => .turnBack
  | .collect _ _ => .collect
  | .putBox _ => .putBox
  | .takeBox _ => .takeBox
  | .repeatRange _ _ => .repeatRange
  | .ifElse _ _ _ _ => .ifElse
  | .whileLoop _ _ => .whileLoop
  | .call _ => .call

def isPrimitive (s : Statement) : Bool := s.kind.isPrimitive

mutual

/-- A statement and all that it nests. -/
def nodes : Statement → List Statement
  | .repeatRange head body => .repeatRange head body :: nodesOf body
  | .ifElse condition thenBody elseIfs elseBody =>
    .ifElse condition thenBody elseIfs elseBody ::
      (nodesOf thenBody ++ nodesOfClauses elseIfs ++ nodesOf elseBody)
  | .whileLoop condition body => .whileLoop condition body :: nodesOf body
  | s => [s]

def nodesOf : List Statement → List Statement
  | [] => []
  | s :: rest => nodes s ++ nodesOf rest

def nodesOfClauses : List (Condition × List Statement) → List Statement
  | [] => []
  | (_, body) :: rest => nodesOf body ++ nodesOfClauses rest

end

/-- A statement, where it stands, and whether a loop of the same body encloses it. -/
structure Place where
  path : Path
  inLoop : Bool
  statement : Statement

def elseIfPath (p : Path) (i : Nat) : Path := ((p.field "elseIf").index i).field "then"

mutual

/-- The places of a statement at `path` and of all that it nests. -/
def places (path : Path) (inLoop : Bool) : Statement → List Place
  | .repeatRange head body =>
    ⟨path, inLoop, .repeatRange head body⟩ :: placesOf (path.field "body") 0 true body
  | .ifElse condition thenBody elseIfs elseBody =>
    ⟨path, inLoop, .ifElse condition thenBody elseIfs elseBody⟩ ::
      (placesOf (path.field "then") 0 inLoop thenBody ++
        placesOfClauses path 0 inLoop elseIfs ++
        placesOf (path.field "else") 0 inLoop elseBody)
  | .whileLoop condition body =>
    ⟨path, inLoop, .whileLoop condition body⟩ :: placesOf (path.field "body") 0 true body
  | s => [⟨path, inLoop, s⟩]

/-- The places of a list of statements at `path`, of which the first has the index `i`. -/
def placesOf (path : Path) (i : Nat) (inLoop : Bool) : List Statement → List Place
  | [] => []
  | s :: rest => places (path.index i) inLoop s ++ placesOf path (i + 1) inLoop rest

def placesOfClauses (path : Path) (i : Nat) (inLoop : Bool) :
    List (Condition × List Statement) → List Place
  | [] => []
  | (_, body) :: rest =>
    placesOf (elseIfPath path i) 0 inLoop body ++ placesOfClauses path (i + 1) inLoop rest

end

mutual

def same : Statement → Statement → Bool
  | .forward a, .forward b => a == b
  | .turnLeft, .turnLeft => true
  | .turnRight, .turnRight => true
  | .turnBack, .turnBack => true
  | .collect a cs, .collect b ds => a == b && cs == ds
  | .putBox a, .putBox b => a == b
  | .takeBox a, .takeBox b => a == b
  | .repeatRange h b, .repeatRange h' b' => h == h' && sameList b b'
  | .ifElse c t es e, .ifElse c' t' es' e' =>
    c == c' && sameList t t' && sameClauses es es' && sameList e e'
  | .whileLoop c b, .whileLoop c' b' => c == c' && sameList b b'
  | .call n, .call n' => n == n'
  | _, _ => false

def sameList : List Statement → List Statement → Bool
  | [], [] => true
  | s :: ss, t :: ts => same s t && sameList ss ts
  | _, _ => false

def sameClauses :
    List (Condition × List Statement) → List (Condition × List Statement) → Bool
  | [], [] => true
  | (c, b) :: rest, (c', b') :: rest' => c == c' && sameList b b' && sameClauses rest rest'
  | _, _ => false

end

instance : BEq Statement := ⟨same⟩

end Statement

end BlockRobot
