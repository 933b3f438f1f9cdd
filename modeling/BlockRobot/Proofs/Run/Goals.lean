import BlockRobot.Proofs.Run.Limits
import BlockRobot.Proofs.World.Conservation

/-!
# Goals along a run

What a goal asks for is counted by numbers that only go up: what was collected, the boxes that were placed,
and the kinds of statements in use (`Machine.Grows`). So a goal that is reached at some point of a run is
reached from there on, and a run that ends well has won: `Simulation.goal_stays_reached`. Tallies are numbers
without an upper end.
-/

namespace BlockRobot

/-! ## What a goal asks for -/

structure Goal.Reached (g : Goal) (w : World) (used : KindSet) : Prop where
  items : ∀ color want, g.collect.get? color = some want → want ≤ w.inventory.collected.of color
  boxes : ∀ want, g.boxesPlaced = some want → want ≤ w.inventory.boxesPlaced
  kinds : ∀ k ∈ g.required, k ∈ used

namespace Goal

variable {g : Goal} {inventory : Inventory} {w : World} {used : KindSet}

theorem missingItems?_eq_none_iff {es : Entries Nat} :
    missingItems? inventory es = none ↔ ∀ e ∈ es, e.2 ≤ inventory.collected.of e.1 := by
  induction es with
  | nil => simp [missingItems?]
  | cons e rest ih =>
    obtain ⟨color, want⟩ := e
    rw [missingItems?, List.forall_mem_cons, ← ih]
    by_cases hgot : inventory.collected.of color < want
    · have hless : ¬ want ≤ inventory.collected.of color := Nat.not_le_of_lt hgot
      simp only [hgot, hless, if_true, reduceCtorEq, false_and]
    · simp only [hgot, Nat.le_of_not_lt hgot, if_false, true_and]

theorem missingBoxes?_eq_none_iff :
    g.missingBoxes? inventory = none ↔ ∀ want, g.boxesPlaced = some want → want ≤ inventory.boxesPlaced := by
  rw [missingBoxes?]
  cases g.boxesPlaced with
  | none => simp
  | some want => simp

theorem missingKind?_eq_none_iff : g.missingKind? used = none ↔ ∀ k ∈ g.required, k ∈ used := by
  simp [missingKind?, KindSet.contains_iff]

theorem shortfall?_eq_none_iff : g.shortfall? w.inventory used = none ↔ g.Reached w used := by
  have hitems : missingItems? w.inventory g.collect.entries = none ↔
      ∀ color want, g.collect.get? color = some want → want ≤ w.inventory.collected.of color := by
    rw [missingItems?_eq_none_iff]
    simp only [Table.get?, Entries.get?_eq_some_iff g.collect.nodup, Prod.forall]
  simp only [shortfall?, Option.orElse_eq_orElse, Option.orElse_eq_or, Option.or_eq_none_iff, hitems,
    missingBoxes?_eq_none_iff, missingKind?_eq_none_iff]
  constructor
  · rintro ⟨hitems, hboxes, hkinds⟩
    exact ⟨hitems, hboxes, hkinds⟩
  · rintro ⟨hitems, hboxes, hkinds⟩
    exact ⟨hitems, hboxes, hkinds⟩

theorem judge_won_iff : (g.judge w used).won = true ↔ g.Reached w used := by
  rw [← shortfall?_eq_none_iff, judge]
  cases g.shortfall? w.inventory used with
  | none => simp
  | some s => simp

end Goal

/-! ## What only goes up -/

structure World.Gains (w w' : World) : Prop where
  collected : ∀ color, w.inventory.collected.of color ≤ w'.inventory.collected.of color
  boxesPlaced : w.inventory.boxesPlaced ≤ w'.inventory.boxesPlaced

theorem World.Gains.refl (w : World) : w.Gains w := ⟨fun _ => Nat.le_refl _, Nat.le_refl _⟩

theorem World.Gains.trans {w w₁ w₂ : World} (h : w.Gains w₁) (h' : w₁.Gains w₂) : w.Gains w₂ :=
  ⟨fun color => Nat.le_trans (h.collected color) (h'.collected color),
    Nat.le_trans h.boxesPlaced h'.boxesPlaced⟩

theorem Action.Effect.gains {a : Action} {w w' : World} (h : Effect w a (.ok w')) : w.Gains w' := by
  refine ⟨fun color => ?items, by rw [h.boxesPlaced]; exact Nat.le_add_right _ _⟩
  case items =>
    cases h with
    | collected =>
      simp only [Tally.of_bump]
      split <;> omega
    | _ => exact Nat.le_refl _

namespace Machine

variable {program : Program} {m m₁ m₂ : Machine} {w w₁ w₂ : World}

/-- From one point of a run to another, nothing that counts for a goal goes down. -/
structure Grows (m : Machine) (w : World) (m₁ : Machine) (w₁ : World) : Prop where
  world : w.Gains w₁
  used : ∀ k ∈ m.used, k ∈ m₁.used

theorem Grows.refl (m : Machine) (w : World) : Grows m w m w := ⟨.refl w, fun _ hk => hk⟩

theorem Grows.trans (h : Grows m w m₁ w₁) (h' : Grows m₁ w₁ m₂ w₂) : Grows m w m₂ w₂ :=
  ⟨h.world.trans h'.world, fun k hk => h'.used k (h.used k hk)⟩

theorem Grows.reached {g : Goal} (h : Grows m w m₁ w₁) (hg : g.Reached w m.used) :
    g.Reached w₁ m₁.used where
  items color want hwant := Nat.le_trans (hg.items color want hwant) (h.world.collected color)
  boxes want hwant := Nat.le_trans (hg.boxes want hwant) h.world.boxesPlaced
  kinds k hk := h.used k (hg.kinds k hk)

theorem Step.grows {a? : Option Action} (h : Step program m w a? m₁ w₁) : Grows m w m₁ w₁ := by
  refine ⟨?_, fun k hk => h.used_subset hk⟩
  cases h with
  | act _ _ applied => exact (Action.Effect.of_eq applied).gains
  | node => exact .refl w

theorem Steps.grows {as : List Action} (h : Steps program m w as m₁ w₁) : Grows m w m₁ w₁ :=
  h.invariant (I := fun m₁ w₁ => Grows m w m₁ w₁) (fun hstep hI => hI.trans hstep.grows) (.refl m w)

theorem grows_advance {stop : Stop} (h : m.advance program w = (stop, m₁, w₁)) : Grows m w m₁ w₁ := by
  rcases advance_cases program m w with ⟨a, m', w', hadv, hsteps, -⟩ | ⟨f?, m', m'', hadv, hsteps, hhalt⟩
  · cases h.symm.trans hadv
    exact hsteps.grows
  · cases h.symm.trans hadv
    exact hsteps.grows.trans ⟨.refl w, fun k hk => hhalt.used_subset hk⟩

/-! ## The points of a run -/

/-- Calls of `advance` one after another, from the first point to the last; also calls that end the run, and
calls after that. -/
inductive Later (program : Program) : Machine → World → Machine → World → Prop where
  | refl (m : Machine) (w : World) : Later program m w m w
  | call {m m₁ m₂ : Machine} {w w₁ w₂ : World} {stop : Stop}
      (advances : m.advance program w = (stop, m₁, w₁)) (rest : Later program m₁ w₁ m₂ w₂) :
      Later program m w m₂ w₂

theorem Later.grows (h : Later program m w m₁ w₁) : Grows m w m₁ w₁ := by
  induction h with
  | refl m w => exact .refl m w
  | call advances _ ih => exact (grows_advance advances).trans ih

theorem run_grows (program : Program) (m : Machine) (w : World) :
    Grows m w (m.run program w).machine (m.run program w).world := by
  obtain ⟨m₁, hsteps, hhalt⟩ := exists_steps_halt program m w
  exact hsteps.grows.trans ⟨.refl _, fun k hk => hhalt.used_subset hk⟩

theorem run_of_exhausted (h : m.advance program w = (.exhausted, m₁, w₁)) :
    m₁.run program w₁ = ⟨[], none, m₁, w₁⟩ := by
  rcases advance_cases program m w with ⟨a, m', w', hadv, -, -⟩ | ⟨f?, m', m'', hadv, -, hhalt⟩
  · cases h.symm.trans hadv
  · cases hhalt with
    | exhausted front =>
      cases h.symm.trans hadv
      exact run_halt (.exhausted front)
    | _ => cases h.symm.trans hadv

theorem Later.run_end (h : Later program m w m₁ w₁) (hf : (m.run program w).failure = none) :
    (m₁.run program w₁).machine = (m.run program w).machine ∧
      (m₁.run program w₁).world = (m.run program w).world := by
  induction h with
  | refl => exact ⟨rfl, rfl⟩
  | @call m m₁ _ w w₁ _ stop advances _ ih =>
    cases stop with
    | acted a =>
      have hrun : m.run program w =
          { m₁.run program w₁ with actions := a :: (m₁.run program w₁).actions } := by
        rw [run, advances]
      rw [hrun] at hf ⊢
      exact ih hf
    | exhausted =>
      have hrun : m.run program w = ⟨[], none, m₁, w₁⟩ := by rw [run, advances]
      rw [run_of_exhausted advances] at ih
      rw [hrun]
      exact ih rfl
    | failed f =>
      have hrun : m.run program w = ⟨[], some f, m₁, w₁⟩ := by rw [run, advances]
      rw [hrun] at hf
      cases hf

end Machine

/-! ## Simulations -/

namespace Simulation

theorem failure_ofTrace (evaluator : Evaluator) (t : Trace) :
    (ofTrace evaluator t).failure = t.failure.map Failure.error := by
  unfold ofTrace
  split <;> simp [*]

theorem won_ofTrace_iff {evaluator : Evaluator} {t : Trace} :
    (ofTrace evaluator t).outcome.won = true ↔
      t.failure = none ∧ (evaluator t.world t.machine.used).won = true := by
  unfold ofTrace
  cases t.failure with
  | none => simp
  | some f => simp

/-- What counts for a goal only goes up from one point of a run to a later one. So a goal that is reached
stays reached, up to the verdict on a run that does not fail, and a run that fails is lost. -/
theorem goal_stays_reached (g : Goal) {limits : Limits} {program : Program} {w w₁ w₂ : World}
    {m₁ m₂ : Machine} (h₁ : Machine.Later program (.new program limits) w m₁ w₁)
    (h₂ : Machine.Later program m₁ w₁ m₂ w₂) :
    ((∀ color, w₁.inventory.collected.of color ≤ w₂.inventory.collected.of color) ∧
      w₁.inventory.boxesPlaced ≤ w₂.inventory.boxesPlaced ∧ ∀ k ∈ m₁.used, k ∈ m₂.used) ∧
    ((g.judge w₁ m₁.used).won = true → (g.judge w₂ m₂.used).won = true) ∧
    ((g.judge w₁ m₁.used).won = true → (run g limits program w).1.failure = none →
      (run g limits program w).1.outcome.won = true) ∧
    (∀ w' used, (g.judge w' used).won = true ↔ g.Reached w' used) ∧
    ∀ evaluator, (run evaluator limits program w).1.failure ≠ none →
      (run evaluator limits program w).1.outcome.won = false := by
  have hgrows := h₂.grows
  refine ⟨⟨hgrows.world.collected, hgrows.world.boxesPlaced, hgrows.used⟩, fun hwon => ?later,
    fun hwon hf => ?verdict, fun w' used => Goal.judge_won_iff, fun evaluator hf => ?lost⟩
  case later => exact Goal.judge_won_iff.mpr (hgrows.reached (Goal.judge_won_iff.mp hwon))
  case verdict =>
    let t := (Machine.new program limits).run program w
    have hrun : (run g limits program w).1 = ofTrace g t := rfl
    rw [hrun, failure_ofTrace] at hf
    have hfailure : t.failure = none := Option.map_eq_none_iff.mp hf
    -- The run goes on from the point where the goal is reached, and ends where it would have ended.
    obtain ⟨hmachine, hworld⟩ := h₁.run_end hfailure
    have hend := Machine.run_grows program m₁ w₁
    rw [hmachine, hworld] at hend
    have hreached := hend.reached (Goal.judge_won_iff.mp hwon)
    exact won_ofTrace_iff.mpr ⟨hfailure, Goal.judge_won_iff.mpr hreached⟩
  case lost =>
    let t := (Machine.new program limits).run program w
    have hrun : (run evaluator limits program w).1 = ofTrace evaluator t := rfl
    rw [hrun, failure_ofTrace] at hf
    rw [hrun, ← Bool.not_eq_true, won_ofTrace_iff]
    rintro ⟨hfailure, -⟩
    exact hf (Option.map_eq_none_iff.mpr hfailure)

def gather : Program := ⟨"1", none, .empty, [.collect (.number 1) [], .turnLeft, .turnBack], 0, .empty, []⟩

def basket : Goal := ⟨.ofEntries [("red", 1)], some 0, [.collect]⟩

theorem gather_stays_reached :
    let w := (World.new 1 1).withItems ⟨0, 0⟩ "red" 1
    ∃ m₁ w₁ m₂ w₂, Machine.Later gather (.new gather .standard) w m₁ w₁ ∧
      Machine.Later gather m₁ w₁ m₂ w₂ ∧ (basket.judge w .empty).won = false ∧
      (basket.judge w₁ m₁.used).won = true ∧ (basket.judge w₂ m₂.used).won = true ∧
      (run basket .standard gather w).1.outcome.won = true := by
  intro w
  let first := (Machine.new gather .standard).advance gather w
  let second := first.2.1.advance gather first.2.2
  have hfirst : Machine.Later gather (.new gather .standard) w first.2.1 first.2.2 := .call rfl (.refl _ _)
  have hsecond : Machine.Later gather first.2.1 first.2.2 second.2.1 second.2.2 := .call rfl (.refl _ _)
  have hwon : (basket.judge first.2.2 first.2.1.used).won = true := by decide +kernel
  have hsucceeds : (run basket .standard gather w).1.failure = none := by decide +kernel
  obtain ⟨-, hlater, hverdict, -, -⟩ := goal_stays_reached basket hfirst hsecond
  exact ⟨_, _, _, _, hfirst, hsecond, by decide +kernel, hwon, hlater hwon, hverdict hwon hsucceeds⟩

end Simulation

end BlockRobot
