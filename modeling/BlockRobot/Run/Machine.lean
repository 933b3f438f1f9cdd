import BlockRobot.Program.Basic
import BlockRobot.Run.Eval
import BlockRobot.Run.Failure
import BlockRobot.Run.Limits
import BlockRobot.Run.Queue

/-!
# The machine

A machine holds a queue of instructions. It takes one from the front: an action is done, and a
statement is replaced by what it expands to, put back at the front. So statements run from left to
right and depth first, and a run can stop between any two actions.
-/

namespace BlockRobot

/-- A statement still to be expanded, with the bindings it sees, or an action. -/
inductive Instruction where
  | node (statement : Statement) (env : Bindings)
  | act (action : Action)

/-- `steps` counts the instructions taken, also one that a limit stopped; `cursor` only those that
were carried out; `last` is the kind of the latest statement that expanded to actions. -/
structure Machine where
  pending : Queue Instruction
  cursor : Nat
  steps : Nat
  executed : Nat
  limits : Limits
  used : KindSet
  last : Option Kind

/-- What a call of `Machine.advance` ends with. -/
inductive Stop where
  | acted (action : Action)
  | exhausted
  | failed (failure : Failure)

/-- Statements as instructions under the same bindings. -/
def nodesIn (env : Bindings) (ss : List Statement) : List Instruction := ss.map fun s => .node s env

namespace Machine

def new (program : Program) (limits : Limits) : Machine where
  pending := .ofList (nodesIn .empty program.actions)
  cursor := 0
  steps := 0
  executed := 0
  limits := limits
  used := program.unrolled
  last := none

def isFinished (m : Machine) : Bool := m.pending.isEmpty

/-- The length of the queue, with the instructions already taken. -/
def queueLength (m : Machine) : Nat := m.cursor + m.pending.size

/-! ## Expanding a statement -/

/-- Fails when the queue has no room for `extra` more instructions. -/
def ensureRoom (m : Machine) (extra : Nat) : Except Failure Unit :=
  if m.limits.maxQueue < m.pending.size + extra then .error ⟨none, .queueLimit m.limits.maxQueue⟩
  else .ok ()

def splice (m : Machine) (children : List Instruction) : Except Failure Machine :=
  if children.isEmpty then .ok m
  else do
    m.ensureRoom children.length
    return { m with pending := m.pending.pushFront children }

def branch (w : World) (env : Bindings) (elseBody : List Statement) :
    List (Condition × List Statement) → List Statement
  | [] => elseBody
  | (c, body) :: rest => if c.holds w env then body else branch w env elseBody rest

/-- The rounds of a counted loop, each under its own value of the loop variable. -/
def rounds (name : Option String) (span : Span Float) (env : Bindings) (body : List Statement)
    (count : Nat) : List Instruction :=
  (List.range count).flatMap fun i =>
    let env := match name with
      | some name => env.insert name (span.member i)
      | none => env
    nodesIn env body

def expandRange (m : Machine) (w : World) (env : Bindings) (head : LoopHead) (body : List Statement) :
    Except Failure Machine :=
  let name := head.counter?.getD ""
  match head.first.value? w env, head.last.value? w env, head.step.value? w env with
  | some first, some last, some step =>
    if step == 0 then .error ⟨none, .zeroStep name⟩
    else do
      let span : Span Float := ⟨first, last, step⟩
      let count := span.count.getD 0
      if m.limits.maxRange < count then
        .error ⟨none, .rangeLimit name count m.limits.maxRange⟩
      else do
        m.ensureRoom (count * body.length)
        m.splice (rounds head.counter? span env body count)
  | _, _, _ => .ok m

def action? : Statement → Option (Action × Option Expr)
  | .forward count => some (.forward, some count)
  | .turnLeft => some (.turnLeft, none)
  | .turnRight => some (.turnRight, none)
  | .turnBack => some (.turnBack, none)
  | .collect count colors => some (.collect colors, some count)
  | .putBox count => some (.putBox, some count)
  | .takeBox count => some (.takeBox, some count)
  | _ => none

/-- How many times an action is to be done; nothing if its count has no value. -/
def repetitions (w : World) (env : Bindings) : Option Expr → Option Nat
  | none => some 1
  | some e => (e.value? w env).map fun x => x.toUInt64.toNat

def shortage? (w : World) (action : Action) (count : Nat) : Option RunError :=
  match action with
  | .collect colors =>
    let available := w.here.matching colors
    if available < count then some (.insufficientItems (min count 4294967295) available colors)
    else none
  | _ => none

def expandAction (m : Machine) (w : World) (env : Bindings) (action : Action) (count : Option Expr) :
    Except Failure Machine :=
  if action.kind.isBoxAction && m.last == some action.kind then
    .error ⟨some action, .consecutiveBoxAction action.kind⟩
  else match repetitions w env count with
    | none => .ok m
    | some n =>
      match shortage? w action n with
      | some error => .error ⟨some action, error⟩
      | none => do
        m.ensureRoom n
        -- A statement that does nothing does not count for the rule on boxes.
        let m := if 0 < n then { m with last := some action.kind } else m
        m.splice (List.replicate n (.act action))

def expand (program : Program) (m : Machine) (w : World) (env : Bindings) (s : Statement) :
    Except Failure Machine :=
  match s with
  | .ifElse c thenBody elseIfs elseBody =>
    m.splice (nodesIn env (branch w env elseBody ((c, thenBody) :: elseIfs)))
  | .whileLoop c body =>
    if !c.holds w env then .ok m
    else if body.isEmpty then .error ⟨none, .emptyWhileBody⟩
    else m.splice (nodesIn env (body ++ [.whileLoop c body]))
  | .repeatRange head body => m.expandRange w env head body
  | .call name =>
    match program.function? name with
    | some f => m.splice (nodesIn env f.body)
    | none => .error ⟨none, .unknownFunction name⟩
  | s =>
    match action? s with
    | some (action, count) => m.expandAction w env action count
    | none => .ok m

/-! ## Advancing -/

def taken (m : Machine) (rest : Queue Instruction) : Machine :=
  { m with pending := rest, steps := m.steps + 1 }

/-- Carries out an instruction. The result is `none` when the run goes on at once. -/
def perform (program : Program) (m : Machine) (w : World) (i : Instruction) :
    Option Stop × Machine × World :=
  let m := { m with cursor := m.cursor + 1 }
  match i with
  | .act action =>
    match action.apply w with
    | .ok w => (some (.acted action), { m with executed := m.executed + 1 }, w)
    | .error refusal => (some (.failed ⟨some action, .refused refusal⟩), m, w)
  | .node s env =>
    let m := { m with used := m.used.insert s.kind }
    match m.expand program w env s with
    | .ok m => (none, m, w)
    | .error failure => (some (.failed failure), m, w)

/-- Takes instructions until an action is done, with room for `allowance` of them. -/
def advanceWithin (program : Program) : Nat → Machine → World → Stop × Machine × World
  | allowance, m, w =>
    match m.pending.pop? with
    | none => (.exhausted, m, w)
    | some (i, rest) =>
      match allowance with
      | 0 => (.failed ⟨none, .stepLimit m.limits.maxSteps⟩, m.taken rest, w)
      | allowance + 1 =>
        match (m.taken rest).perform program w i with
        | (none, m, w) => advanceWithin program allowance m w
        | (some stop, m, w) => (stop, m, w)

/-- Takes instructions until an action is done, the queue is empty or the run fails. -/
def advance (program : Program) (m : Machine) (w : World) : Stop × Machine × World :=
  advanceWithin program (m.limits.maxSteps - m.steps) m w

end Machine

end BlockRobot
