import BlockRobot.Proofs.Run.Counters

/-!
# Replaying a run

Only its actions change the world of a run, and each of them is on its list once, in the order in which
they were done (`Steps.replay`, `run_executed`). So the list leads from the first world of the run to
its last, and an action that failed is either refused there or was never tried:
`Simulation.run_replays`.
-/

namespace BlockRobot

/-- Does actions one after another; the first that is refused ends it. -/
def Action.replay (as : List Action) (w : World) : Except Refusal World :=
  as.foldlM (fun w a => a.apply w) w

def RunError.isForestalled : RunError → Bool
  | .insufficientItems _ _ _ | .consecutiveBoxAction _ => true
  | _ => false

namespace Machine

variable {program : Program} {m m₁ : Machine} {w w₁ : World}

/-! ## Steps -/

theorem Steps.replay {as : List Action} (h : Steps program m w as m₁ w₁) :
    Action.replay as w = .ok w₁ := by
  induction h with
  | refl => rfl
  | @step _ _ _ w w₁ _ a? as first _ ih =>
    cases a? with
    | none =>
      obtain rfl := first.world_eq
      exact ih
    | some a =>
      have happ : a.apply w = .ok w₁ := first.applied
      rw [Action.replay, Option.toList_some, List.singleton_append, List.foldlM_cons, happ]
      exact ih

theorem Halt.executed {f? : Option Failure} (h : Halt program m w f? m₁) :
    m₁.executed = m.executed := by
  cases h <;> rfl

/-! ## Failing actions -/

/-- When the machine has done the actions of its run, it comes to a statement for the action `a` and
fails to expand it, so that `a` does not even get into the queue. -/
inductive Withheld (program : Program) (m : Machine) (w : World) (a : Action) : Prop where
  | intro {m₁ : Machine} {s : Statement} {env : Bindings} {count : Option Expr}
      {rest : Queue Instruction} {f : Failure}
      (steps : Steps program m w (m.run program w).actions m₁ (m.run program w).world)
      (front : m₁.pending.pop? = some (.node s env, rest)) (stands : action? s = some (a, count))
      (stops : (m₁.entered rest s).expand program (m.run program w).world env s = .error f)
      (fails : (m.run program w).failure = some f)

theorem expansion_error_action {env : Bindings} {last : Option Kind} {s : Statement} {a : Action}
    {e : RunError} (h : expansion program w env last s = .error ⟨some a, e⟩) :
    e.isForestalled = true ∧ ∃ count, action? s = some (a, count) := by
  cases Expands.of_eq h with
  | boxTwice acts => exact ⟨rfl, _, acts⟩
  | short acts _ _ lacks =>
    obtain ⟨_, _, _, rfl⟩ := shortage_eq lacks
    exact ⟨rfl, _, acts⟩

theorem run_failed_action {a : Action} {e : RunError}
    (hf : (m.run program w).failure = some ⟨some a, e⟩) :
    (∃ r, e = .refused r ∧ a.apply (m.run program w).world = .error r) ∨
      (e.isForestalled = true ∧ Withheld program m w a) := by
  obtain ⟨m₁, hsteps, hhalt⟩ := exists_steps_halt program m w
  rw [hf] at hhalt
  generalize (m.run program w).machine = m₂ at hhalt
  -- Of the ways in which a run ends, only these two blame an action.
  cases hhalt with
  | refused _ _ applied => exact .inl ⟨_, rfl, applied⟩
  | @failed s _ rest _ front _ expands =>
    obtain ⟨hforestalled, count, hacts⟩ := expansion_error_action expands
    have hstops := expand_failed (m := m₁.entered rest s) expands
    exact .inr ⟨hforestalled, .intro hsteps front hacts hstops hf⟩

theorem run_executed (program : Program) (m : Machine) (w : World) :
    (m.run program w).machine.executed = m.executed + (m.run program w).actions.length := by
  obtain ⟨_, hsteps, hhalt⟩ := exists_steps_halt program m w
  rw [hhalt.executed, hsteps.counts.executed]

end Machine

namespace Simulation

/-- The actions of a run, done again, all succeed and lead to the world that is judged or in which the
run failed. They are what the report lists, but for a failing action at the end. -/
theorem run_replays (evaluator : Evaluator) (limits : Limits) (program : Program) (w : World) :
    let s := (run evaluator limits program w).1
    let m := Machine.new program limits
    let trace := m.run program w
    Action.replay trace.actions w = .ok trace.world ∧
    trace.machine.executed = trace.actions.length ∧
    (trace.failure = none → s.failure = none ∧ s.actions = trace.actions ∧
      s.outcome = evaluator trace.world s.used) ∧
    (∀ e, trace.failure = some ⟨none, e⟩ → s.failure = some e ∧ s.actions = trace.actions) ∧
    ∀ a e, trace.failure = some ⟨some a, e⟩ →
      s.failure = some e ∧ s.actions = trace.actions ++ [a] ∧
      ((∃ r, e = .refused r ∧ a.apply trace.world = .error r) ∨
        (e.isForestalled = true ∧ Machine.Withheld program m w a)) := by
  intro s m trace
  have hs : s = ofTrace evaluator trace := rfl
  obtain ⟨_, hsteps, _⟩ := Machine.exists_steps_halt program m w
  have hexecuted := Machine.run_executed program m w
  refine ⟨hsteps.replay, hexecuted.trans (Nat.zero_add _), fun hf => ?_, fun e hf => ?_,
    fun a e hf => ?_⟩
  · simp only [hs, ofTrace, hf, and_self]
  · simp only [hs, ofTrace, hf, Option.toList_none, List.append_nil, and_self]
  · refine ⟨?_, ?_, Machine.run_failed_action hf⟩
    · simp only [hs, ofTrace, hf]
    · simp only [hs, ofTrace, hf, Option.toList_some]

/-- Picks an item up, and walks on over the edge of the map. -/
def overrun : Program :=
  ⟨"1", none, .empty, [.collect (.number 1) ["red"], .forward (.number 3)], 0, .empty, []⟩

def greedy : Program := ⟨"1", none, .empty, [.turnBack, .collect (.number 2) []], 0, .empty, []⟩

def redCorner : World := (World.new 3 1).withItems ⟨0, 0⟩ "red" 1

theorem overrun_replays :
    (∃ w, Action.replay [.collect ["red"], .forward, .forward] redCorner = .ok w ∧
      Action.apply .forward w = .error (.outside .east ⟨3, 0⟩)) ∧
    Machine.Withheld greedy (.new greedy .standard) redCorner (.collect []) := by
  have hoverrun : ((Machine.new overrun .standard).run overrun redCorner).failure =
      some ⟨some .forward, .refused (.outside .east ⟨3, 0⟩)⟩ := by decide +kernel
  have hactions : ((Machine.new overrun .standard).run overrun redCorner).actions =
      [.collect ["red"], .forward, .forward] := by decide +kernel
  have hgreedy : ((Machine.new greedy .standard).run greedy redCorner).failure =
      some ⟨some (.collect []), .insufficientItems 2 1 []⟩ := by decide +kernel
  obtain ⟨hreplay, _, _, _, hfailed⟩ := run_replays Goal.empty .standard overrun redCorner
  obtain ⟨_, _, _, _, hfailed'⟩ := run_replays Goal.empty .standard greedy redCorner
  constructor
  · rw [hactions] at hreplay
    rcases (hfailed _ _ hoverrun).2.2 with ⟨r, hr, happly⟩ | ⟨hforestalled, _⟩
    · cases hr
      exact ⟨_, hreplay, happly⟩
    · cases hforestalled
  · rcases (hfailed' _ _ hgreedy).2.2 with ⟨r, hr, _⟩ | ⟨_, hwithheld⟩
    · cases hr
    · exact hwithheld

end Simulation

end BlockRobot
