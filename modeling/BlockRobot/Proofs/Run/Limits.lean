import BlockRobot.Proofs.Run.Unfolding

/-!
# What larger limits change

Limits are asked last: a statement that fails by itself does so under all limits, and what the limits
let through, larger ones let through too (`Step.within`). So larger limits leave a run that was not
cut short as it is, and go on with one that was: `Simulation.run_limits_mono`.
-/

namespace BlockRobot

instance : LE Limits :=
  ⟨fun l l' => l.maxSteps ≤ l'.maxSteps ∧ l.maxQueue ≤ l'.maxQueue ∧ l.maxRange ≤ l'.maxRange⟩

instance (l l' : Limits) : Decidable (l ≤ l') :=
  inferInstanceAs (Decidable (l.maxSteps ≤ l'.maxSteps ∧ l.maxQueue ≤ l'.maxQueue ∧
    l.maxRange ≤ l'.maxRange))

theorem Expansion.Fits.mono {x : Expansion} {l l' : Limits} {size : Nat} (h : x.Fits l size)
    (hle : l ≤ l') : x.Fits l' size := by
  obtain ⟨hrounds, hroom⟩ := h
  obtain ⟨_, hqueue, hrange⟩ := hle
  exact ⟨Nat.le_trans hrounds hrange, fun hx => Nat.le_trans (hroom hx) hqueue⟩

namespace Machine

def within (m : Machine) (limits : Limits) : Machine := { m with limits := limits }

variable {program : Program} {m m₁ : Machine} {w w₁ : World} {l : Limits}

/-! ## Steps and halts under larger limits -/

theorem Step.within {a? : Option Action} (h : Step program m w a? m₁ w₁) (hle : m.limits ≤ l) :
    Step program (m.within l) w a? (m₁.within l) w₁ := by
  cases h with
  | act front allowed applied =>
    exact .act (m := m.within l) front (Nat.lt_of_lt_of_le allowed hle.1) applied
  | node front allowed expands fits =>
    exact .node (m := m.within l) front (Nat.lt_of_lt_of_le allowed hle.1) expands (fits.mono hle)

theorem Steps.within {as : List Action} (h : Steps program m w as m₁ w₁) (hle : m.limits ≤ l) :
    Steps program (m.within l) w as (m₁.within l) w₁ := by
  induction h with
  | refl => exact .refl _ _
  | step first _ ih =>
    have hlimits := first.limits_steps.1
    exact .step (first.within hle) (ih (hlimits ▸ hle))

theorem Halt.within {f? : Option Failure} (h : Halt program m w f? m₁)
    (hcut : f?.any (·.error.isLimit) = false) (hle : m.limits ≤ l) :
    Halt program (m.within l) w f? (m₁.within l) := by
  cases h with
  | exhausted front => exact .exhausted (m := m.within l) front
  | stepLimit => simp [RunError.isLimit] at hcut
  | refused front allowed applied =>
    exact .refused (m := m.within l) front (Nat.lt_of_lt_of_le allowed hle.1) applied
  | failed front allowed expands =>
    exact .failed (m := m.within l) front (Nat.lt_of_lt_of_le allowed hle.1) expands
  | limited _ _ _ _ _ limit => simp [limit] at hcut

theorem run_within (hcut : (m.run program w).isCut = false) (hle : m.limits ≤ l) :
    (m.within l).run program w =
      { m.run program w with machine := (m.run program w).machine.within l } := by
  obtain ⟨m₁, hsteps, hhalt⟩ := exists_steps_halt program m w
  have hle₁ : m₁.limits ≤ l := hsteps.limits_eq ▸ hle
  rw [run_eq_of_halt (hsteps.within hle) (hhalt.within hcut hle₁)]

/-! ## Kinds in use -/

theorem Step.used_subset {a? : Option Action} (h : Step program m w a? m₁ w₁) {k : Kind}
    (hk : k ∈ m.used) : k ∈ m₁.used := by
  cases h with
  | act => exact hk
  | node => exact KindSet.mem_insert.mpr (.inr hk)

theorem Halt.used_subset {f? : Option Failure} (h : Halt program m w f? m₁) {k : Kind}
    (hk : k ∈ m.used) : k ∈ m₁.used := by
  cases h with
  | exhausted | stepLimit | refused => exact hk
  | failed | limited => exact KindSet.mem_insert.mpr (.inr hk)

theorem run_used_subset (program : Program) (m : Machine) (w : World) {k : Kind} (hk : k ∈ m.used) :
    k ∈ (m.run program w).machine.used := by
  obtain ⟨m₁, hsteps, hhalt⟩ := exists_steps_halt program m w
  have hm₁ : k ∈ m₁.used :=
    hsteps.invariant (I := fun m' _ => k ∈ m'.used) (fun hstep hI => hstep.used_subset hI) hk
  exact hhalt.used_subset hm₁

/-- The kind of the first statement counts as used, whether or not it can be expanded. -/
theorem run_used_front {s : Statement} {env : Bindings} {rest : Queue Instruction}
    (front : m.pending.pop? = some (.node s env, rest)) (allowed : m.steps < m.limits.maxSteps) :
    s.kind ∈ (m.run program w).machine.used := by
  have hentered : s.kind ∈ (m.entered rest s).used := KindSet.mem_insert.mpr (.inl rfl)
  cases hx : expansion program w env m.last s with
  | error f =>
    rw [run_halt (.failed front allowed hx)]
    exact hentered
  | ok x =>
    by_cases hfits : x.Fits m.limits rest.size
    · rw [run_silent (.node front allowed hx hfits)]
      exact run_used_subset program _ w hentered
    · obtain ⟨e, hlimit, he⟩ := expand_limited (m := m.entered rest s) hx hfits
      rw [run_halt (.limited front allowed hx hfits he hlimit)]
      exact hentered

/-! ## Runs that are cut short -/

theorem Halt.action_of_cut {f : Failure} (h : Halt program m w (some f) m₁)
    (hcut : f.error.isLimit = true) : f.action = none := by
  cases h with
  | stepLimit | limited => rfl
  | refused => cases hcut
  | failed _ _ expands =>
    rw [expansion_error_not_limit expands] at hcut
    cases hcut

theorem Halt.used_of_cut {f : Failure} (h : Halt program m w (some f) m₁)
    (hcut : f.error.isLimit = true) (hle : m.limits ≤ l) {k : Kind} (hk : k ∈ m₁.used) :
    k ∈ ((m.within l).run program w).machine.used := by
  cases h with
  | stepLimit => exact run_used_subset program (m.within l) w hk
  | refused => cases hcut
  | failed _ _ expands =>
    rw [expansion_error_not_limit expands] at hcut
    cases hcut
  | limited front allowed =>
    rcases KindSet.mem_insert.mp hk with rfl | hk
    · exact run_used_front (m := m.within l) front (Nat.lt_of_lt_of_le allowed hle.1)
    · exact run_used_subset program (m.within l) w hk

theorem run_cut {f : Failure} (hf : (m.run program w).failure = some f)
    (hcut : f.error.isLimit = true) (hle : m.limits ≤ l) :
    f.action = none ∧ (m.run program w).actions <+: ((m.within l).run program w).actions ∧
      ∀ k ∈ (m.run program w).machine.used, k ∈ ((m.within l).run program w).machine.used := by
  obtain ⟨m₁, hsteps, hhalt⟩ := exists_steps_halt program m w
  rw [hf] at hhalt
  -- Under the larger limits the run comes to the same place, and goes on from there.
  rw [run_eq_steps (hsteps.within hle)]
  have hle₁ : m₁.limits ≤ l := hsteps.limits_eq ▸ hle
  exact ⟨hhalt.action_of_cut hcut, List.prefix_append _ _,
    fun k hk => hhalt.used_of_cut hcut hle₁ hk⟩

end Machine

/-! ## Simulations -/

namespace Simulation

def isCut (s : Simulation) : Bool := s.failure.any RunError.isLimit

theorem isCut_ofTrace (evaluator : Evaluator) (t : Trace) : (ofTrace evaluator t).isCut = t.isCut := by
  unfold ofTrace Trace.isCut isCut
  split <;> simp [*]

theorem used_ofTrace (evaluator : Evaluator) (t : Trace) :
    (ofTrace evaluator t).used = t.machine.used := by
  unfold ofTrace
  split <;> rfl

theorem ofTrace_within (evaluator : Evaluator) (t : Trace) (l : Limits) :
    ofTrace evaluator { t with machine := t.machine.within l } = ofTrace evaluator t := rfl

/-- Larger limits change nothing about a run that was not cut short, and otherwise only add to what it
did and used. -/
theorem run_limits_mono (evaluator : Evaluator) (program : Program) (w : World) {l l' : Limits}
    (hle : l ≤ l') :
    let s := (run evaluator l program w).1
    let s' := (run evaluator l' program w).1
    (s.isCut = false → s' = s) ∧
    (s.isCut = true → s.actions <+: s'.actions ∧ ∀ k ∈ s.used, k ∈ s'.used) := by
  intro s s'
  have hs : s = ofTrace evaluator ((Machine.new program l).run program w) := rfl
  have hs' : s' = ofTrace evaluator (((Machine.new program l).within l').run program w) := rfl
  rw [hs, hs', isCut_ofTrace]
  constructor
  · intro hcut
    rw [Machine.run_within hcut hle, ofTrace_within]
  · intro hcut
    cases hf : ((Machine.new program l).run program w).failure with
    | none => simp [Trace.isCut, hf] at hcut
    | some f =>
      have hlimit : f.error.isLimit = true := by simpa [Trace.isCut, hf] using hcut
      obtain ⟨hnone, hactions, hused⟩ := Machine.run_cut hf hlimit hle
      rw [used_ofTrace, used_ofTrace]
      refine ⟨prefix_ofTrace _ ?_, hused⟩
      simpa [ofTrace, hf, hnone] using hactions

/-- Turns in two loops, one inside the other. -/
def pirouette : Program :=
  ⟨"1", none, .empty,
    [.repeatRange ⟨some "i", .number 1, .number 2, .number 1⟩
      [.repeatRange ⟨some "j", .number 1, .var "i", .number 1⟩ [.turnLeft], .turnBack]], 0, .empty, []⟩

theorem pirouette_limits :
    let s := (run Goal.empty ⟨6, 4, 2⟩ pirouette (World.new 1 1)).1
    let s' := (run Goal.empty ⟨20, 4, 2⟩ pirouette (World.new 1 1)).1
    s.failure = some (.stepLimit 6) ∧ s'.failure = none ∧
      [.turnLeft, .turnBack] <+: s'.actions ∧ .repeatRange ∈ s'.used ∧
      (run Goal.empty .standard pirouette (World.new 1 1)).1 = s' := by
  intro s s'
  have hfailure : s.failure = some (.stepLimit 6) := by decide +kernel
  have hactions : s.actions = [.turnLeft, .turnBack] := by decide +kernel
  have hused : .repeatRange ∈ s.used := by decide +kernel
  have hsucceeds : s'.failure = none := by decide +kernel
  obtain ⟨_, hmore⟩ := run_limits_mono Goal.empty pirouette (World.new 1 1)
    (by decide : (⟨6, 4, 2⟩ : Limits) ≤ ⟨20, 4, 2⟩)
  obtain ⟨hsame, _⟩ := run_limits_mono Goal.empty pirouette (World.new 1 1)
    (by decide : (⟨20, 4, 2⟩ : Limits) ≤ .standard)
  obtain ⟨hactions', hsubset⟩ := hmore (congrArg (Option.any RunError.isLimit) hfailure)
  exact ⟨hfailure, hsucceeds, hactions ▸ hactions', hsubset _ hused,
    hsame (congrArg (Option.any RunError.isLimit) hsucceeds)⟩

end Simulation

end BlockRobot
