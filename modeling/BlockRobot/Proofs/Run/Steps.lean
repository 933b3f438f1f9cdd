import BlockRobot.Proofs.Run.Expansion
import BlockRobot.Run.Simulation

/-!
# Runs, one instruction at a time

`Machine.Step` takes one instruction off the queue and goes on, `Machine.Halt` is the end of a run.
Every machine does exactly one of the two, and `Machine.run` is made of steps up to a halt:
`run_eq_steps`.
-/

namespace BlockRobot

namespace Machine

def acted (m : Machine) (rest : Queue Instruction) : Machine :=
  { m.taken rest with cursor := m.cursor + 1, executed := m.executed + 1 }

def entered (m : Machine) (rest : Queue Instruction) (s : Statement) : Machine :=
  { m.taken rest with cursor := m.cursor + 1, used := m.used.insert s.kind }

/-- A step of a machine in a world, with the action that it does, if it does one. -/
inductive Step (program : Program) (m : Machine) (w : World) :
    Option Action → Machine → World → Prop where
  | act {a : Action} {rest : Queue Instruction} {w' : World}
      (front : m.pending.pop? = some (.act a, rest)) (allowed : m.steps < m.limits.maxSteps)
      (applied : a.apply w = .ok w') : Step program m w (some a) (m.acted rest) w'
  | node {s : Statement} {env : Bindings} {rest : Queue Instruction} {x : Expansion}
      (front : m.pending.pop? = some (.node s env, rest)) (allowed : m.steps < m.limits.maxSteps)
      (expands : expansion program w env m.last s = .ok x) (fits : x.Fits m.limits rest.size) :
      Step program m w none ((m.entered rest s).enqueue x) w

/-- The end of a run, with the failure if it ends with one. The world stays as it is. -/
inductive Halt (program : Program) (m : Machine) (w : World) : Option Failure → Machine → Prop where
  | exhausted (front : m.pending.pop? = none) : Halt program m w none m
  | stepLimit {i : Instruction} {rest : Queue Instruction}
      (front : m.pending.pop? = some (i, rest)) (used : m.limits.maxSteps ≤ m.steps) :
      Halt program m w (some ⟨none, .stepLimit m.limits.maxSteps⟩) (m.taken rest)
  | refused {a : Action} {rest : Queue Instruction} {r : Refusal}
      (front : m.pending.pop? = some (.act a, rest)) (allowed : m.steps < m.limits.maxSteps)
      (applied : a.apply w = .error r) :
      Halt program m w (some ⟨some a, .refused r⟩) { m.taken rest with cursor := m.cursor + 1 }
  | failed {s : Statement} {env : Bindings} {rest : Queue Instruction} {f : Failure}
      (front : m.pending.pop? = some (.node s env, rest)) (allowed : m.steps < m.limits.maxSteps)
      (expands : expansion program w env m.last s = .error f) :
      Halt program m w (some f) (m.entered rest s)
  | limited {s : Statement} {env : Bindings} {rest : Queue Instruction} {x : Expansion} {e : RunError}
      (front : m.pending.pop? = some (.node s env, rest)) (allowed : m.steps < m.limits.maxSteps)
      (expands : expansion program w env m.last s = .ok x) (unfit : ¬ x.Fits m.limits rest.size)
      (stops : (m.entered rest s).expand program w env s = .error ⟨none, e⟩)
      (limit : e.isLimit = true) : Halt program m w (some ⟨none, e⟩) (m.entered rest s)

inductive Steps (program : Program) : Machine → World → List Action → Machine → World → Prop where
  | refl (m : Machine) (w : World) : Steps program m w [] m w
  | step {m m₁ m₂ : Machine} {w w₁ w₂ : World} {a? : Option Action} {as : List Action}
      (first : Step program m w a? m₁ w₁) (rest : Steps program m₁ w₁ as m₂ w₂) :
      Steps program m w (a?.toList ++ as) m₂ w₂

variable {program : Program} {m m₁ m₂ : Machine} {w w₁ w₂ : World}

theorem Step.limits_steps {a? : Option Action} (h : Step program m w a? m₁ w₁) :
    m₁.limits = m.limits ∧ m₁.steps = m.steps + 1 ∧ m.steps < m.limits.maxSteps := by
  cases h with
  | act _ allowed _ => exact ⟨rfl, rfl, allowed⟩
  | node _ allowed _ _ => exact ⟨rfl, rfl, allowed⟩

theorem Step.world_eq (h : Step program m w none m₁ w₁) : w₁ = w := by
  cases h
  rfl

theorem Step.applied {a : Action} (h : Step program m w (some a) m₁ w₁) : a.apply w = .ok w₁ := by
  cases h with
  | act _ _ applied => exact applied

theorem Steps.trans {as bs : List Action} (h : Steps program m w as m₁ w₁)
    (h' : Steps program m₁ w₁ bs m₂ w₂) : Steps program m w (as ++ bs) m₂ w₂ := by
  induction h with
  | refl => exact h'
  | step first _ ih =>
    rw [List.append_assoc]
    exact .step first (ih h')

/-- What every step keeps, a run keeps. -/
theorem Steps.invariant {I : Machine → World → Prop}
    (hstep : ∀ {m m₁ : Machine} {w w₁ : World} {a? : Option Action},
      Step program m w a? m₁ w₁ → I m w → I m₁ w₁)
    {as : List Action} (h : Steps program m w as m₁ w₁) (hI : I m w) : I m₁ w₁ := by
  induction h with
  | refl => exact hI
  | step first _ ih => exact ih (hstep first hI)

theorem Steps.limits_eq {as : List Action} (h : Steps program m w as m₁ w₁) :
    m₁.limits = m.limits :=
  h.invariant (I := fun m' _ => m'.limits = m.limits)
    (fun hstep hI => hstep.limits_steps.1.trans hI) rfl

/-! ## Steps and halts of `advance` -/

theorem perform_node {s : Statement} {env : Bindings} (rest : Queue Instruction) :
    (m.taken rest).perform program w (.node s env) =
      match (m.entered rest s).expand program w env s with
      | .ok m => (none, m, w)
      | .error f => (some (.failed f), m.entered rest s, w) := rfl

theorem perform_act {a : Action} (rest : Queue Instruction) :
    (m.taken rest).perform program w (.act a) =
      match a.apply w with
      | .ok w => (some (.acted a), m.acted rest, w)
      | .error r =>
        (some (.failed ⟨some a, .refused r⟩), { m.taken rest with cursor := m.cursor + 1 }, w) := rfl

theorem advance_eq_perform {i : Instruction} {rest : Queue Instruction}
    (hp : m.pending.pop? = some (i, rest)) (hs : m.steps < m.limits.maxSteps) :
    m.advance program w = match (m.taken rest).perform program w i with
      | (none, m', w') => m'.advance program w'
      | (some stop, m', w') => (stop, m', w') := by
  obtain ⟨n, hn⟩ : ∃ n, m.limits.maxSteps - m.steps = n + 1 :=
    Nat.exists_eq_succ_of_ne_zero (by omega)
  rw [advance, hn, advanceWithin, hp]
  simp only
  generalize hr : (m.taken rest).perform program w i = r
  obtain ⟨_ | stop, m', w'⟩ := r
  · obtain ⟨hl, hst⟩ := perform_limits hr
    have hrest : m'.limits.maxSteps - m'.steps = n := by
      rw [hl, hst]
      simp only [taken]
      omega
    simp only [advance, hrest]
  · rfl

theorem advance_silent (h : Step program m w none m₁ w₁) :
    m.advance program w = m₁.advance program w₁ := by
  cases h with
  | @node s _ rest _ front allowed expands fits =>
    rw [advance_eq_perform front allowed, perform_node,
      expand_enqueued (m := m.entered rest s) expands fits]

theorem advance_act {a : Action} (h : Step program m w (some a) m₁ w₁) :
    m.advance program w = (.acted a, m₁, w₁) := by
  cases h with
  | act front allowed applied =>
    rw [advance_eq_perform front allowed, perform_act, applied]

def stopOf : Option Failure → Stop
  | none => .exhausted
  | some f => .failed f

theorem advance_halt {f? : Option Failure} (h : Halt program m w f? m₁) :
    m.advance program w = (stopOf f?, m₁, w) := by
  cases h with
  | exhausted front =>
    rw [advance, advanceWithin, front]
    rfl
  | stepLimit front used =>
    rw [advance, Nat.sub_eq_zero_of_le used, advanceWithin, front]
    rfl
  | refused front allowed applied =>
    rw [advance_eq_perform front allowed, perform_act, applied]
    rfl
  | @failed s _ rest _ front allowed expands =>
    rw [advance_eq_perform front allowed, perform_node, expand_failed (m := m.entered rest s) expands]
    rfl
  | limited front allowed _ _ stops _ =>
    rw [advance_eq_perform front allowed, perform_node, stops]
    rfl

theorem step_or_halt (program : Program) (m : Machine) (w : World) :
    (∃ a? m₁ w₁, Step program m w a? m₁ w₁) ∨ (∃ f? m₁, Halt program m w f? m₁) := by
  cases hp : m.pending.pop? with
  | none => exact .inr ⟨_, _, .exhausted hp⟩
  | some front =>
    obtain ⟨i, rest⟩ := front
    rcases Nat.lt_or_ge m.steps m.limits.maxSteps with hs | hs
    · cases i with
      | act a =>
        cases ha : a.apply w with
        | ok w' => exact .inl ⟨_, _, _, .act hp hs ha⟩
        | error r => exact .inr ⟨_, _, .refused hp hs ha⟩
      | node s env =>
        cases hx : expansion program w env m.last s with
        | error f => exact .inr ⟨_, _, .failed hp hs hx⟩
        | ok x =>
          by_cases hfits : x.Fits m.limits rest.size
          · exact .inl ⟨_, _, _, .node hp hs hx hfits⟩
          · obtain ⟨e, hlimit, he⟩ := expand_limited (m := m.entered rest s) hx hfits
            exact .inr ⟨_, _, .limited hp hs hx hfits he hlimit⟩
    · exact .inr ⟨_, _, .stepLimit hp hs⟩

/-! ## Steps and halts of `run` -/

theorem run_silent (h : Step program m w none m₁ w₁) : m.run program w = m₁.run program w₁ := by
  rw [run, run, advance_silent h]

theorem run_act {a : Action} (h : Step program m w (some a) m₁ w₁) :
    m.run program w =
      { m₁.run program w₁ with actions := a :: (m₁.run program w₁).actions } := by
  rw [run, advance_act h]

theorem run_halt {f? : Option Failure} (h : Halt program m w f? m₁) :
    m.run program w = ⟨[], f?, m₁, w⟩ := by
  rw [run, advance_halt h]
  cases f? <;> rfl

theorem run_eq_steps {as : List Action} (h : Steps program m w as m₁ w₁) :
    m.run program w =
      { m₁.run program w₁ with actions := as ++ (m₁.run program w₁).actions } := by
  induction h with
  | refl => rfl
  | @step _ _ _ _ _ _ a? _ first _ ih =>
    cases a? with
    | none => rw [run_silent first, ih]; rfl
    | some a => rw [run_act first, ih]; rfl

theorem run_eq_of_halt {as : List Action} {f? : Option Failure} (h : Steps program m w as m₁ w₁)
    (hhalt : Halt program m₁ w₁ f? m₂) : m.run program w = ⟨as, f?, m₂, w₁⟩ := by
  rw [run_eq_steps h, run_halt hhalt]
  simp only [List.append_nil]

theorem exists_steps_halt (program : Program) (m : Machine) (w : World) :
    ∃ m₁, Steps program m w (m.run program w).actions m₁ (m.run program w).world ∧
      Halt program m₁ (m.run program w).world (m.run program w).failure
        (m.run program w).machine := by
  -- The steps that are left decrease; they are generalized over all machines.
  obtain ⟨n, hn⟩ : ∃ n, m.limits.maxSteps - m.steps = n := ⟨_, rfl⟩
  induction n using Nat.strongRecOn generalizing m w with
  | ind n ih =>
    rcases step_or_halt program m w with ⟨a?, m₁, w₁, hstep⟩ | ⟨f?, m₁, hhalt⟩
    · obtain ⟨hl, hs, hlt⟩ := hstep.limits_steps
      obtain ⟨m₂, hsteps, hhalt⟩ := ih _ (by rw [← hn, hl, hs]; omega) m₁ w₁ rfl
      have hrun := run_eq_steps (.step hstep (.refl m₁ w₁))
      rw [List.append_nil] at hrun
      rw [hrun]
      exact ⟨m₂, .step hstep hsteps, hhalt⟩
    · rw [run_halt hhalt]
      exact ⟨m, .refl m w, hhalt⟩

/-! ## Single calls of `advance` -/

/-- A call of `advance` either does one action, or ends the run and leaves the world alone. -/
theorem advance_cases (program : Program) (m : Machine) (w : World) :
    (∃ a m₁ w₁, m.advance program w = (.acted a, m₁, w₁) ∧ Steps program m w [a] m₁ w₁ ∧
      a.apply w = .ok w₁) ∨
    (∃ f? m₁ m₂, m.advance program w = (stopOf f?, m₂, w) ∧ Steps program m w [] m₁ w ∧
      Halt program m₁ w f? m₂) := by
  obtain ⟨n, hn⟩ : ∃ n, m.limits.maxSteps - m.steps = n := ⟨_, rfl⟩
  induction n using Nat.strongRecOn generalizing m with
  | ind n ih =>
    rcases step_or_halt program m w with ⟨a?, m₁, w₁, hstep⟩ | ⟨f?, m₁, hhalt⟩
    · cases a? with
      | some a =>
        exact .inl ⟨a, m₁, w₁, advance_act hstep, .step hstep (.refl m₁ w₁), hstep.applied⟩
      | none =>
        obtain rfl := hstep.world_eq
        obtain ⟨hl, hs, hlt⟩ := hstep.limits_steps
        rw [advance_silent hstep]
        rcases ih _ (by rw [← hn, hl, hs]; omega) m₁ rfl with
          ⟨a, m₂, w₂, hadv, hsteps, happ⟩ | ⟨f?, m₂, m₃, hadv, hsteps, hhalt⟩
        · exact .inl ⟨a, m₂, w₂, hadv, .step hstep hsteps, happ⟩
        · exact .inr ⟨f?, m₂, m₃, hadv, .step hstep hsteps, hhalt⟩
    · exact .inr ⟨f?, m, m₁, advance_halt hhalt, .refl m w, hhalt⟩

/-- The world after the first `n` actions of a run, or at its end if it has fewer. -/
def worldAfter (program : Program) : Nat → Machine → World → World
  | 0, _, w => w
  | n + 1, m, w =>
    match m.advance program w with
    | (.acted _, m', w') => worldAfter program n m' w'
    | (_, _, w') => w'

theorem Steps.worldAfter {as : List Action} (h : Steps program m w as m₁ w₁) :
    worldAfter program as.length m w = w₁ := by
  induction h with
  | refl => rfl
  | @step m m₁ _ w w₁ w₂ a? as first _ ih =>
    cases a? with
    | none =>
      obtain rfl := first.world_eq
      cases as with
      | nil => exact ih
      | cons a as =>
        rw [← ih]
        simp only [Option.toList_none, List.nil_append, List.length_cons, Machine.worldAfter,
          advance_silent first]
    | some a =>
      rw [← ih]
      simp only [Option.toList_some, List.cons_append, List.nil_append, List.length_cons,
        Machine.worldAfter, advance_act first]

end Machine

theorem Simulation.prefix_ofTrace {evaluator : Evaluator} {as : List Action} (t : Trace)
    (h : as <+: t.actions) : as <+: (Simulation.ofTrace evaluator t).actions := by
  unfold Simulation.ofTrace
  split
  · exact h
  · exact h.trans (List.prefix_append _ _)

end BlockRobot
