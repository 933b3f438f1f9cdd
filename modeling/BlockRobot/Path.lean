/-!
# Paths

A path names a place in a program: a root such as `actions`, then indices and field names, written
`actions[3].body[0]`.
-/

namespace BlockRobot

inductive Path.Step where
  | index (i : Nat)
  | field (name : String)
  deriving DecidableEq, Repr

structure Path where
  root : String
  steps : List Path.Step
  deriving DecidableEq, Repr

namespace Path

def Step.render : Step → String
  | .index i => "[" ++ toString i ++ "]"
  | .field name => "." ++ name

def renderSteps : List Step → String
  | [] => ""
  | s :: rest => s.render ++ renderSteps rest

def render (p : Path) : String := p.root ++ renderSteps p.steps

def ofRoot (root : String) : Path := ⟨root, []⟩

def extend (p : Path) (steps : List Step) : Path := { p with steps := p.steps ++ steps }

def index (p : Path) (i : Nat) : Path := p.extend [.index i]

def field (p : Path) (name : String) : Path := p.extend [.field name]

theorem renderSteps_append (xs ys : List Step) :
    renderSteps (xs ++ ys) = renderSteps xs ++ renderSteps ys := by
  induction xs with
  | nil => simp [renderSteps]
  | cons s rest ih => simp [renderSteps, ih, String.append_assoc]

theorem render_extend (p : Path) (steps : List Step) :
    (p.extend steps).render = p.render ++ renderSteps steps := by
  simp [render, extend, renderSteps_append, String.append_assoc]

end Path

end BlockRobot
