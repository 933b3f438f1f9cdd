import BlockRobot.Proofs.Run.Steps

/-!
# Statements that act

A statement for an action is activated when a run comes to it and its count has a positive value. It puts
its actions in front of the queue, and nothing else is expanded before they are done. So in front of the
queue stand the actions left over from the latest activation, and behind them only statements
(`Machine.Ahead`): `Step.advances` says what a step makes of them.
-/

namespace BlockRobot

/-- An action that a statement asks to do `count` times. -/
structure Activation where
  action : Action
  count : Nat
  pos : 0 < count

namespace Activation

def kind (x : Activation) : Kind := x.action.kind

def actions (x : Activation) : List Action := List.replicate x.count x.action

end Activation

namespace Machine

/-- The activation of a statement, if it is one for an action and its count has a positive value. -/
def activationOf (w : World) (env : Bindings) (s : Statement) : Option Activation := do
  let (action, count) ← action? s
  let n ← repetitions w env count
  if h : 0 < n then some ⟨action, n, h⟩ else none

def activation? (m : Machine) (w : World) : Option Activation :=
  match m.pending.pop? with
  | some (.node s env, _) => activationOf w env s
  | _ => none

variable {program : Program} {m m₁ : Machine} {w w₁ : World} {env : Bindings} {s : Statement}

theorem kind_of_action? {a : Action} {count : Option Expr} (h : action? s = some (a, count)) :
    a.kind = s.kind := by
  cases s <;> cases h <;> rfl

theorem activationOf_eq {a : Action} {count : Option Expr} {n : Nat}
    (hacts : action? s = some (a, count)) (hcounted : repetitions w env count = some n) :
    activationOf w env s = if h : 0 < n then some ⟨a, n, h⟩ else none := by
  simp only [activationOf, hacts, hcounted, Option.bind_eq_bind, Option.bind_some]

theorem activation?_of_act {a : Action} {rest : Queue Instruction}
    (h : m.pending.pop? = some (.act a, rest)) : m.activation? w = none := by
  simp only [activation?, h]

theorem activation?_of_node {rest : Queue Instruction}
    (h : m.pending.pop? = some (.node s env, rest)) : m.activation? w = activationOf w env s := by
  simp only [activation?, h]

/-! ## Actions in front of the queue -/

def AllNodes (is : List Instruction) : Prop := ∀ i ∈ is, ∃ s env, i = .node s env

theorem AllNodes.nodesIn (env : Bindings) (ss : List Statement) : AllNodes (nodesIn env ss) := by
  intro i hi
  obtain ⟨s, -, rfl⟩ := List.mem_map.mp hi
  exact ⟨s, env, rfl⟩

theorem AllNodes.append {is js : List Instruction} (hi : AllNodes is) (hj : AllNodes js) :
    AllNodes (is ++ js) := by
  intro i h
  exact (List.mem_append.mp h).elim (hi i) (hj i)

theorem AllNodes.rounds (name : Option String) (span : Span Float) (env : Bindings)
    (body : List Statement) (count : Nat) : AllNodes (rounds name span env body count) := by
  intro i hi
  obtain ⟨k, -, hk⟩ := List.mem_flatMap.mp hi
  exact AllNodes.nodesIn _ body i hk

/-- The queue begins with the actions `todo`, and only statements follow. -/
def Ahead (todo : List Action) (m : Machine) : Prop :=
  ∃ rest, m.pending.items = todo.map .act ++ rest ∧ AllNodes rest

theorem ahead_new (program : Program) (limits : Limits) : (Machine.new program limits).Ahead [] :=
  ⟨_, rfl, .nodesIn _ _⟩

theorem Ahead.of_act {todo : List Action} {a : Action} {rest : Queue Instruction}
    (h : m.Ahead todo) (hp : m.pending.pop? = some (.act a, rest)) :
    ∃ later, todo = a :: later ∧ ∃ nodes, rest.items = later.map .act ++ nodes ∧ AllNodes nodes := by
  obtain ⟨nodes, hitems, hnodes⟩ := h
  rw [Queue.pop?_eq_some_iff.mp hp] at hitems
  cases todo with
  | nil =>
    have hmem : Instruction.act a ∈ nodes := by
      rw [← show _ = nodes from hitems]
      exact List.mem_cons_self
    obtain ⟨s, env, hs⟩ := hnodes _ hmem
    cases hs
  | cons b later =>
    obtain ⟨hb, hrest⟩ := List.cons.inj hitems
    cases hb
    exact ⟨later, rfl, nodes, hrest, hnodes⟩

theorem Ahead.of_node {todo : List Action} {rest : Queue Instruction}
    (h : m.Ahead todo) (hp : m.pending.pop? = some (.node s env, rest)) :
    todo = [] ∧ AllNodes rest.items := by
  obtain ⟨nodes, hitems, hnodes⟩ := h
  rw [Queue.pop?_eq_some_iff.mp hp] at hitems
  cases todo with
  | nil =>
    refine ⟨rfl, fun i hi => hnodes i ?_⟩
    rw [← show _ = nodes from hitems]
    exact List.mem_cons_of_mem _ hi
  | cons a later => cases (List.cons.inj hitems).1

theorem expansion_activation {last : Option Kind} {x : Expansion}
    (h : expansion program w env last s = .ok x) :
    (∃ y count, activationOf w env s = some y ∧ action? s = some (y.action, count) ∧
      x.children = y.actions.map .act ∧ x.last = some y.kind ∧
      (y.kind.isBoxAction = false ∨ last ≠ some y.kind) ∧ shortage? w y.action y.count = none) ∨
    (activationOf w env s = none ∧ AllNodes x.children ∧ x.last = last) := by
  cases Expands.of_eq h with
  | ifElse => exact .inr ⟨rfl, .nodesIn _ _, rfl⟩
  | whileDone => exact .inr ⟨rfl, .nodesIn _ _, rfl⟩
  | whileAgain => exact .inr ⟨rfl, .nodesIn _ _, rfl⟩
  | rangeSkipped => exact .inr ⟨rfl, .nodesIn _ _, rfl⟩
  | range => exact .inr ⟨rfl, .rounds _ _ _ _ _, rfl⟩
  | call => exact .inr ⟨rfl, .nodesIn _ _, rfl⟩
  | skipped acts _ missing =>
    refine .inr ⟨?_, .nodesIn _ _, rfl⟩
    simp only [activationOf, acts, missing, Option.bind_eq_bind, Option.bind_some, Option.bind_none]
  | @acts _ a count n acts free counted enough =>
    rw [activationOf_eq acts counted]
    by_cases hpos : 0 < n
    · refine .inl ⟨⟨a, n, hpos⟩, count, dif_pos hpos, acts, ?_, if_pos hpos, free, enough⟩
      simp only [Activation.actions, List.map_replicate]
    · refine .inr ⟨dif_neg hpos, ?_, if_neg hpos⟩
      rw [Nat.eq_zero_of_not_pos hpos]
      intro i hi
      cases hi

/-- What a step makes of the actions in front of the queue: it does the first of them, or if there are none
it activates a statement, or expands one that is not activated. -/
inductive Advances (m : Machine) (w : World) (m₁ : Machine) :
    List Action → Option Action → List Action → Prop where
  | acted {a : Action} {later : List Action} (quiet : m.activation? w = none)
      (last : m₁.last = m.last) : Advances m w m₁ (a :: later) (some a) later
  | activated {x : Activation} {s : Statement} {env : Bindings} {rest : Queue Instruction}
      {count : Option Expr} (front : m.pending.pop? = some (.node s env, rest))
      (acts : action? s = some (x.action, count)) (activates : m.activation? w = some x)
      (last : m₁.last = some x.kind) (free : x.kind.isBoxAction = false ∨ m.last ≠ some x.kind)
      (enough : shortage? w x.action x.count = none) : Advances m w m₁ [] none x.actions
  | expanded (quiet : m.activation? w = none) (last : m₁.last = m.last) : Advances m w m₁ [] none []

theorem Step.advances {a? : Option Action} {todo : List Action} (h : Step program m w a? m₁ w₁)
    (hm : m.Ahead todo) : ∃ later, m₁.Ahead later ∧ Advances m w m₁ todo a? later := by
  cases h with
  | act front =>
    obtain ⟨later, rfl, hlater⟩ := hm.of_act front
    exact ⟨later, hlater, .acted (activation?_of_act front) rfl⟩
  | @node s env rest x front _ expands _ =>
    obtain ⟨rfl, hnodes⟩ := hm.of_node front
    have hactivation : m.activation? w = activationOf w env s := activation?_of_node front
    rcases expansion_activation expands with
      ⟨y, count, hy, hacts, hchildren, hlast, hfree, henough⟩ | ⟨hnone, hchildren, hlast⟩
    · refine ⟨y.actions, ⟨rest.items, ?_, hnodes⟩, .activated front hacts (hactivation.trans hy) hlast
        hfree henough⟩
      exact congrArg (· ++ rest.items) hchildren
    · exact ⟨[], ⟨_, rfl, hchildren.append hnodes⟩, .expanded (hactivation.trans hnone) hlast⟩

/-! ## The log of a run -/

inductive Logged (program : Program) (m : Machine) (w : World) :
    List Activation → List Action → Machine → World → Prop where
  | refl : Logged program m w [] [] m w
  | step {log : List Activation} {as : List Action} {m₁ m₂ : Machine} {w₁ w₂ : World}
      {a? : Option Action} (earlier : Logged program m w log as m₁ w₁)
      (next : Step program m₁ w₁ a? m₂ w₂) :
      Logged program m w (log ++ (m₁.activation? w₁).toList) (as ++ a?.toList) m₂ w₂

theorem Logged.steps {log : List Activation} {as : List Action}
    (h : Logged program m w log as m₁ w₁) : Steps program m w as m₁ w₁ := by
  induction h with
  | refl => exact .refl m w
  | step _ next ih =>
    have hnext := Steps.step next (.refl _ _)
    rw [List.append_nil] at hnext
    exact ih.trans hnext

theorem Steps.exists_logged {as : List Action} (h : Steps program m w as m₁ w₁) :
    ∃ log, Logged program m w log as m₁ w₁ := by
  -- The log grows at its end, so the steps that are left are added to a log of those before.
  have hgrow : ∀ {m₀ m m₁ : Machine} {w₀ w w₁ : World} {log : List Activation} {as bs : List Action},
      Steps program m w bs m₁ w₁ → Logged program m₀ w₀ log as m w →
        ∃ log', Logged program m₀ w₀ log' (as ++ bs) m₁ w₁ := by
    intro m₀ m m₁ w₀ w w₁ log as bs hsteps
    induction hsteps generalizing log as with
    | refl =>
      intro hlog
      exact ⟨log, by rwa [List.append_nil]⟩
    | step first _ ih =>
      intro hlog
      rw [← List.append_assoc]
      exact ih (hlog.step first)
  exact hgrow h .refl

end Machine

end BlockRobot
