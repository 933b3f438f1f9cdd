import BlockRobot.Program.Lint
import BlockRobot.Proofs.Run.Reach

/-!
# What linting rules out

Linting finds the problem of every statement of a program (`mem_problems`), and a run comes to no
others. So what it does not find cannot make a run fail: `failure_of_problems`.
-/

namespace BlockRobot

namespace Lint

variable {functions : Table Function} {t : Statement} {p : Problem}

theorem mem_own {path : Path} (h : ownProblem? functions t = some p) :
    p ∈ (own functions path t).map Issue.problem := by
  simp [own, h]

/-! ## Every problem is found -/

mutual

theorem mem_statement (h : ownProblem? functions t = some p) (path : Path) (s : Statement)
    (ht : t ∈ s.nodes) : p ∈ (statement functions path s).map Issue.problem := by
  cases s with
  | repeatRange head body =>
    simp only [statement, List.map_append, List.mem_append]
    rcases List.mem_cons.mp ht with rfl | ht
    · exact .inl (.inl (mem_own h))
    · exact .inr (mem_statements h _ 0 body ht)
  | whileLoop c body =>
    simp only [statement, List.map_append, List.mem_append]
    rcases List.mem_cons.mp ht with rfl | ht
    · exact .inl (.inl (mem_own h))
    · exact .inr (mem_statements h _ 0 body ht)
  | ifElse c thenBody elseIfs elseBody =>
    simp only [statement, List.map_append, List.mem_append]
    simp only [Statement.nodes, List.mem_cons, List.mem_append] at ht
    rcases ht with rfl | (ht | ht) | ht
    · cases h -- No rule is about conditionals.
    · exact .inl (.inl (.inr (mem_statements h _ 0 thenBody ht)))
    · exact .inl (.inr (mem_clauses h path 0 elseIfs ht))
    · exact .inr (.inr (mem_statements h _ 0 elseBody ht))
  | _ =>
    obtain rfl := List.mem_singleton.mp ht
    exact mem_own h

theorem mem_statements (h : ownProblem? functions t = some p) (path : Path) (i : Nat)
    (ss : List Statement) (ht : t ∈ Statement.nodesOf ss) :
    p ∈ (statements functions path i ss).map Issue.problem := by
  cases ss with
  | nil => cases ht
  | cons s rest =>
    simp only [statements, List.map_append, List.mem_append]
    rcases List.mem_append.mp ht with ht | ht
    · exact .inl (mem_statement h (path.index i) s ht)
    · exact .inr (mem_statements h path (i + 1) rest ht)

theorem mem_clauses (h : ownProblem? functions t = some p) (path : Path) (i : Nat)
    (elseIfs : List (Condition × List Statement)) (ht : t ∈ Statement.nodesOfClauses elseIfs) :
    p ∈ (clauses functions path i elseIfs).map Issue.problem := by
  cases elseIfs with
  | nil => cases ht
  | cons clause rest =>
    obtain ⟨c, body⟩ := clause
    simp only [clauses, List.map_append, List.mem_append]
    rcases List.mem_append.mp ht with ht | ht
    · exact .inl (.inr (mem_statements h _ 0 body ht))
    · exact .inr (mem_clauses h path (i + 1) rest ht)

end

theorem mem_body (h : ownProblem? functions t = some p) (path : Path) {ss : List Statement}
    (ht : t ∈ Statement.nodesOf ss) : p ∈ (body functions path ss).map Issue.problem := by
  rw [body, List.map_append]
  exact List.mem_append_right _ (mem_statements h path 0 ss ht)

end Lint

def Program.problems (p : Program) : List Problem := p.lint.map Issue.problem

theorem Program.mem_problems {program : Program} {s : Statement} {p : Problem}
    (hs : s ∈ program.nodes) (h : Lint.ownProblem? program.functions s = some p) :
    p ∈ program.problems := by
  obtain ⟨body, hbody, hs⟩ := List.mem_flatMap.mp hs
  rw [problems, lint, List.map_append, List.map_flatMap]
  rcases List.mem_cons.mp hbody with rfl | hbody
  · exact List.mem_append_left _ (Lint.mem_body h _ hs)
  · obtain ⟨e, he, rfl⟩ := List.mem_map.mp hbody
    exact List.mem_append_right _ (List.mem_flatMap.mpr ⟨e, he, Lint.mem_body h _ hs⟩)

/-! ## Failures and problems -/

theorem Expr.value?_of_number? {e : Expr} {w : World} {env : Bindings} {x y : Float}
    (hx : e.number? = some x) (hy : e.value? w env = some y) : y = x := by
  cases e with
  | number z =>
    cases hx
    simp only [value?, finite?] at hy
    split at hy
    · exact (Option.some.inj hy).symm
    · cases hy
  | _ => cases hx

namespace Machine

variable {program : Program} {w : World}

/-- What is wrong with a statement that fails when it is expanded, as far as linting has a rule for it:
a step of zero is a problem only if it is written as a number. -/
def Explains (program : Program) (s : Statement) : RunError → Prop
  | .unknownFunction name =>
    Lint.ownProblem? program.functions s = some (.undefinedFunction name program.functions.keys)
  | .emptyWhileBody => Lint.ownProblem? program.functions s = some .emptyWhile
  | .zeroStep _ => ∃ head body, s = .repeatRange head body ∧ (head.step.number? = none ∨
      Lint.ownProblem? program.functions s = some (.zeroStep head.counter?))
  | _ => True

theorem Expands.explains {env : Bindings} {last : Option Kind} {s : Statement} {f : Failure}
    (h : Expands program w env last s (.error f)) : Explains program s f.error := by
  cases h with
  | callUnknown undefined =>
    have hcontains : program.functions.contains _ = false := congrArg Option.isSome undefined
    simp only [Explains, Lint.ownProblem?, hcontains]
    rfl
  | whileEmpty => rfl
  | @rangeStuck head body _ _ step _ _ hstep zero =>
    refine ⟨head, body, rfl, ?_⟩
    cases hx : head.step.number? with
    | none => exact .inl rfl
    | some x =>
      obtain rfl := Expr.value?_of_number? hx hstep
      exact .inr (by simp [Lint.ownProblem?, hx, zero])
  | boxTwice => trivial
  | short _ _ _ lacks =>
    obtain ⟨_, _, _, rfl⟩ := shortage_eq lacks
    trivial

/-- A run does not fail in a way that linting has a rule for without its finding a problem, but for a
step of zero that is not written as a number. -/
theorem failure_of_problems (program : Program) (limits : Limits) (w : World) :
    let trace := (Machine.new program limits).run program w
    ((∀ name defined, .undefinedFunction name defined ∉ program.problems) →
      ∀ a name, trace.failure ≠ some ⟨a, .unknownFunction name⟩) ∧
    (.emptyWhile ∉ program.problems → ∀ a, trace.failure ≠ some ⟨a, .emptyWhileBody⟩) ∧
    ((∀ counter?, .zeroStep counter? ∉ program.problems) →
      ∀ a name, trace.failure = some ⟨a, .zeroStep name⟩ →
        ∃ head body, .repeatRange head body ∈ program.nodes ∧ head.step.number? = none ∧
          FailsAt program (.new program limits) w (.repeatRange head body) ⟨a, .zeroStep name⟩) := by
  intro trace
  refine ⟨fun hproblems a name hf => ?_, fun hproblems a hf => ?_, fun hproblems a name hf => ?_⟩
  · obtain ⟨s, hs, _, _, _, _, hexpands⟩ := exists_failsAt hf rfl (by intro r h; cases h)
    exact hproblems _ _ (Program.mem_problems hs hexpands.explains)
  · obtain ⟨s, hs, _, _, _, _, hexpands⟩ := exists_failsAt hf rfl (by intro r h; cases h)
    exact hproblems (Program.mem_problems hs hexpands.explains)
  · obtain ⟨s, hs, hat, _, _, _, hexpands⟩ := exists_failsAt hf rfl (by intro r h; cases h)
    obtain ⟨head, body, rfl, hnone | hproblem⟩ := hexpands.explains
    · exact ⟨head, body, hs, hnone, hat⟩
    · exact absurd (Program.mem_problems hs hproblem) (hproblems _)

/-- Two nested loops, of which the outer one counts the step of the inner one down to zero. -/
def countdown : Program :=
  ⟨"1", none, .empty,
    [.repeatRange ⟨some "i", .number 1, .number 0, .number (-1)⟩
      [.repeatRange ⟨some "j", .number 1, .number 2, .var "i"⟩ [.turnLeft]]], 0, .empty, []⟩

theorem failure_countdown :
    countdown.problems = [] ∧ ∃ head body, head.step.number? = none ∧
      FailsAt countdown (.new countdown .standard) (World.new 1 1) (.repeatRange head body)
        ⟨none, .zeroStep "j"⟩ := by
  have hproblems : countdown.problems = [] := by decide +kernel
  have hf : ((Machine.new countdown .standard).run countdown (World.new 1 1)).failure =
      some ⟨none, .zeroStep "j"⟩ := by decide +kernel
  obtain ⟨_, _, hzero⟩ := failure_of_problems countdown .standard (World.new 1 1)
  obtain ⟨head, body, _, hnone, hat⟩ :=
    hzero (fun counter? h => by rw [hproblems] at h; cases h) none "j" hf
  exact ⟨hproblems, head, body, hnone, hat⟩

end Machine

end BlockRobot
