import BlockRobot.Proofs.Session.Host
import BlockRobot.Run.Simulation

/-!
# Live runs and simulated runs

From when it is started, a session follows the run of its machine (`Follows`) until it is stopped or
given another program, whatever timers fire and however often it is paused. So it does the actions of
the simulation of its program, in the same worlds and with the same end: `serve_simulates`.
-/

namespace BlockRobot

/-- The calls that leave the run of a session to itself. -/
def Call.keepsRun : Call → Bool
  | .load _ | .stop => false
  | _ => true

def stepActions (events : List Event) : List Action :=
  events.filterMap fun
    | .step _ _ a => some a
    | _ => none

@[simp] theorem stepActions_append (earlier later : List Event) :
    stepActions (earlier ++ later) = stepActions earlier ++ stepActions later :=
  List.filterMap_append

namespace Session

/-- How a session stands to the run of a machine from a world, with the events since that run was
started. A run that is not over has done the actions that they report; one that is over has also come
to a halt. -/
inductive Follows (program : Program) (m₀ : Machine) (w₀ : World) (evaluator : Evaluator)
    (since : List Event) (s : Session) : Prop where
  | underway {m : Machine} (phase : s.phase = .running ∨ s.phase = .paused)
      (loaded : s.program = some program) (judge : s.evaluator = evaluator)
      (machine : s.machine = some m)
      (steps : Machine.Steps program m₀ w₀ (stepActions since) m s.world)
  | completed {m₁ m₂ : Machine} (phase : s.phase = .completed (evaluator s.world m₂.used))
      (machine : s.machine = some m₂)
      (steps : Machine.Steps program m₀ w₀ (stepActions since) m₁ s.world)
      (halt : Machine.Halt program m₁ s.world none m₂)
  | failed {m₁ m₂ : Machine} {f : Failure} {earlier : List Event} (phase : s.phase = .failed f.message)
      (machine : s.machine = some m₂)
      (steps : Machine.Steps program m₀ w₀ (stepActions since) m₁ s.world)
      (halt : Machine.Halt program m₁ s.world (some f) m₂)
      (latest : since = earlier ++ [.failed f.message f.action])

variable {program : Program} {m₀ : Machine} {w₀ : World} {evaluator : Evaluator} {since : List Event}
  {s s' : Session}

theorem Follows.congr (h : Follows program m₀ w₀ evaluator since s) (hworld : s'.world = s.world)
    (hevaluator : s'.evaluator = s.evaluator) (hprogram : s'.program = s.program)
    (hmachine : s'.machine = s.machine) (hphase : s'.phase = s.phase) :
    Follows program m₀ w₀ evaluator since s' := by
  cases h with
  | underway phase loaded judge machine steps =>
    exact .underway (hphase ▸ phase) (hprogram.trans loaded) (hevaluator.trans judge)
      (hmachine.trans machine) (hworld ▸ steps)
  | completed phase machine steps halt =>
    exact .completed (by rw [hphase, hworld, phase]) (hmachine.trans machine) (hworld ▸ steps)
      (hworld ▸ halt)
  | failed phase machine steps halt latest =>
    exact .failed (hphase.trans phase) (hmachine.trans machine) (hworld ▸ steps) (hworld ▸ halt) latest

theorem Follows.steps (h : Follows program m₀ w₀ evaluator since s)
    (hphase : s.phase = .running ∨ s.phase = .paused) :
    s.program = some program ∧ s.evaluator = evaluator ∧ ∃ m, s.machine = some m ∧
      Machine.Steps program m₀ w₀ (stepActions since) m s.world := by
  cases h with
  | underway _ loaded judge machine steps => exact ⟨loaded, judge, _, machine, steps⟩
  | completed phase => simp [phase] at hphase
  | failed phase => simp [phase] at hphase

theorem Follows.not_idle (h : Follows program m₀ w₀ evaluator since s) : s.phase ≠ .idle := by
  intro hidle
  cases h with
  | underway phase => simp [hidle] at phase
  | completed phase => simp [hidle] at phase
  | failed phase => simp [hidle] at phase

/-! ## One call -/

theorem Follows.fired {p : Program} {m : Machine} (h : Follows program m₀ w₀ evaluator since s)
    (hrun : s.phase = .running) (hp : s.program = some p) (hm : s.machine = some m)
    (hfired : Fired s p m s') :
    ∃ e, s'.events = e :: s.events ∧ Follows program m₀ w₀ evaluator (since ++ [e]) s' := by
  obtain ⟨hprogram, hevaluator, m', hm', hsteps⟩ := h.steps (.inl hrun)
  obtain rfl : p = program := Option.some.inj (hp.symm.trans hprogram)
  obtain rfl : m = m' := Option.some.inj (hm.symm.trans hm')
  -- Whatever the timer does, it goes on from the machine and the world of the session.
  have hall {e : Event} {as : List Action} {m₁ : Machine} {w₁ : World} (he : stepActions [e] = as)
      (hmore : Machine.Steps p m s.world as m₁ w₁) :
      Machine.Steps p m₀ w₀ (stepActions (since ++ [e])) m₁ w₁ := by
    rw [stepActions_append, he]
    exact hsteps.trans hmore
  cases hfired with
  | acted steps applied => exact ⟨_, rfl, .underway (.inl hrun) hp hevaluator rfl (hall rfl steps)⟩
  | finished steps halt judged =>
    exact ⟨_, rfl, .completed (by rw [judged, hevaluator]) rfl (hall rfl steps) halt⟩
  | failed steps halt => exact ⟨_, rfl, .failed rfl rfl (hall rfl steps) halt rfl⟩

/-- The calls that leave a run to itself let a session follow it. What they hand out and what then
waits to be drained are the events from before and new ones. -/
theorem Follows.change {c : Call} {events : List Event} (h : Follows program m₀ w₀ evaluator since s)
    (hc : c.keepsRun = true) (hchange : Change s c events s') :
    ∃ new, events ++ s'.events.reverse = s.events.reverse ++ new ∧
      Follows program m₀ w₀ evaluator (since ++ new) s' := by
  have hquiet {s' : Session} (h' : Follows program m₀ w₀ evaluator since s') :
      Follows program m₀ w₀ evaluator (since ++ []) s' := by rwa [List.append_nil]
  cases hchange with
  | load | stop => cases hc
  | started idle => exact absurd idle h.not_idle
  | paused running =>
    obtain ⟨hprogram, hevaluator, m, hm, hsteps⟩ := h.steps (.inl running)
    refine ⟨[.paused s.progress.1], by simp, .underway (.inr rfl) hprogram hevaluator hm ?_⟩
    simpa [stepActions] using hsteps
  | resumed paused =>
    obtain ⟨hprogram, hevaluator, m, hm, hsteps⟩ := h.steps (.inr paused)
    refine ⟨[.resumed s.progress.1], by simp, .underway (.inl rfl) hprogram hevaluator hm ?_⟩
    simpa [stepActions] using hsteps
  | fired _ running loaded machine fired =>
    obtain ⟨e, he, h'⟩ := h.fired running loaded machine fired
    exact ⟨[e], by simp [he], h'⟩
  | drain | nextDue | cancel => exact ⟨[], by simp, hquiet (h.congr rfl rfl rfl rfl rfl)⟩
  | notStarted | notPaused | notResumed | stale => exact ⟨[], by simp, hquiet h⟩

/-! ## Any calls -/

theorem Follows.serve (hs : s.Consistent) (h : Follows program m₀ w₀ evaluator since s)
    {calls : List Call} (hcalls : ∀ c ∈ calls, c.keepsRun = true) :
    ∃ new, (s.serve calls).1 ++ (s.serve calls).2.events.reverse = s.events.reverse ++ new ∧
      Follows program m₀ w₀ evaluator (since ++ new) (s.serve calls).2 := by
  induction calls generalizing s since with
  | nil =>
    refine ⟨[], by simp [Session.serve], ?_⟩
    rw [List.append_nil]
    exact h
  | cons c rest ih =>
    have hchange := respond_change hs c
    obtain ⟨new, hnew, h₁⟩ := h.change (hcalls c List.mem_cons_self) hchange
    obtain ⟨later, hlater, h₂⟩ := ih (hs.change hchange) h₁ fun c hc => hcalls c (List.mem_cons_of_mem _ hc)
    refine ⟨new ++ later, ?_, ?_⟩
    · simp only [Session.serve, List.append_assoc, hlater]
      rw [← List.append_assoc, hnew, List.append_assoc]
    · rw [← List.append_assoc]
      exact h₂

/-! ## Beside a simulation -/

theorem follows_started (s : Session) (hprogram : s.program = some program) :
    Follows program (.new program s.config.limits) s.world s.evaluator
      [.started (Machine.new program s.config.limits).queueLength] (s.started program) :=
  .underway (.inl rfl) hprogram rfl rfl (.refl _ _)

theorem simulation_of_halt {limits : Limits} {m₁ m₂ : Machine} {w₁ : World} {as : List Action}
    {f? : Option Failure} (hsteps : Machine.Steps program (.new program limits) w₀ as m₁ w₁)
    (hhalt : Machine.Halt program m₁ w₁ f? m₂) :
    (Simulation.run evaluator limits program w₀).1 = .ofTrace evaluator ⟨as, f?, m₂, w₁⟩ :=
  congrArg (Simulation.ofTrace evaluator) (Machine.run_eq_of_halt hsteps hhalt)

section

variable {limits : Limits} (h : Follows program (.new program limits) w₀ evaluator since s)

include h

theorem Follows.exists_steps :
    ∃ m, Machine.Steps program (.new program limits) w₀ (stepActions since) m s.world := by
  cases h with
  | underway _ _ _ _ steps => exact ⟨_, steps⟩
  | completed _ _ steps _ => exact ⟨_, steps⟩
  | failed _ _ steps _ _ => exact ⟨_, steps⟩

theorem Follows.actions_isPrefix :
    stepActions since <+: (Simulation.run evaluator limits program w₀).1.actions := by
  obtain ⟨m, hsteps⟩ := h.exists_steps
  refine Simulation.prefix_ofTrace _ ?_
  rw [Machine.run_eq_steps hsteps]
  exact List.prefix_append _ _

theorem Follows.simulation_completed {outcome : Outcome} (hphase : s.phase = .completed outcome) :
    ∃ used, s.used? = some used ∧
      (Simulation.run evaluator limits program w₀).1 = ⟨stepActions since, outcome, used, none⟩ := by
  cases h with
  | underway phase => simp [hphase] at phase
  | completed phase machine steps halt =>
    cases hphase.symm.trans phase
    exact ⟨_, by rw [used?, machine]; rfl, simulation_of_halt steps halt⟩
  | failed phase => simp [hphase] at phase

theorem Follows.simulation_failed {reason : String} (hphase : s.phase = .failed reason) :
    ∃ used, ∃ f : Failure, ∃ earlier, s.used? = some used ∧ reason = f.message ∧
      since = earlier ++ [.failed reason f.action] ∧
      (Simulation.run evaluator limits program w₀).1 =
        ⟨stepActions since ++ f.action.toList, ⟨false, f.error.message⟩, used, some f.error⟩ := by
  cases h with
  | underway phase => simp [hphase] at phase
  | completed phase => simp [hphase] at phase
  | failed phase machine steps halt latest =>
    cases hphase.symm.trans phase
    exact ⟨_, _, _, by rw [used?, machine]; rfl, rfl, latest, simulation_of_halt steps halt⟩

end

/-- A session that is started from idle, beside the simulation of its program in its world. `since`
are the events from the start on, those that were drained and those that were not. -/
theorem serve_simulates (s : Session) (program : Program) (hidle : s.phase = .idle)
    (hprogram : s.program = some program) (hover : s.world.gameOver = false) :
    ∃ s₀, s.start = .ok s₀ ∧ ∀ calls : List Call, (∀ c ∈ calls, c.keepsRun = true) →
      let sim := (Simulation.run s.evaluator s.config.limits program s.world).1
      let s' := (s₀.serve calls).2
      ∃ since, (s₀.serve calls).1 ++ s'.events.reverse = s.events.reverse ++ since ∧
        stepActions since <+: sim.actions ∧
        s'.world = Machine.worldAfter program (stepActions since).length
          (.new program s.config.limits) s.world ∧
        (∀ outcome, s'.phase = .completed outcome →
          sim.failure = none ∧ sim.actions = stepActions since ∧ sim.outcome = outcome ∧
          s'.used? = some sim.used) ∧
        (∀ reason, s'.phase = .failed reason →
          ∃ e action earlier, sim.failure = some e ∧ since = earlier ++ [.failed reason action] ∧
            sim.actions = stepActions since ++ action.toList ∧
            reason = Failure.message ⟨action, e⟩ ∧ s'.used? = some sim.used) := by
  refine ⟨s.started program, start_eq hidle hprogram hover, fun calls hcalls => ?_⟩
  intro sim s'
  obtain ⟨new, hnew, h⟩ :=
    (follows_started s hprogram).serve (consistent_started s hprogram) hcalls
  refine ⟨_, ?_, h.actions_isPrefix, ?_, fun outcome hphase => ?_, fun reason hphase => ?_⟩
  · rw [hnew]
    simp [started]
  · obtain ⟨m, hsteps⟩ := h.exists_steps
    exact hsteps.worldAfter.symm
  · obtain ⟨used, hused, (hsim : sim = _)⟩ := h.simulation_completed hphase
    rw [hsim]
    exact ⟨rfl, rfl, rfl, hused⟩
  · obtain ⟨used, f, earlier, hused, hreason, hlatest, (hsim : sim = _)⟩ := h.simulation_failed hphase
    rw [hsim]
    exact ⟨f.error, f.action, earlier, rfl, hlatest, rfl, hreason, hused⟩

def hops : Program :=
  ⟨"1", none, .empty,
    [.repeatRange ⟨some "i", .number 1, .number 2, .number 1⟩ [.forward (.var "i")]], 0, .empty, []⟩

/-- A session whose first run was given up after one action. -/
def restarted : Session :=
  ((Session.new (World.new 5 1) Goal.empty .standard).serve
    [.load hops, .start, .onTimer 1, .stop]).2

/-- The timer of the first run fires late, and that of the second is taken before a pause and fires
after it. -/
def lateTimers : List Call :=
  [.onTimer 2, .onTimer 3, .nextDue, .pause, .resume, .onTimer 4, .drain, .onTimer 5, .onTimer 6,
    .onTimer 7]

theorem restarted_simulates :
    ∃ s₀, restarted.start = .ok s₀ ∧
      (s₀.serve lateTimers).2.phase = .completed ⟨true, "level complete"⟩ ∧
      let sim := (Simulation.run restarted.evaluator restarted.config.limits hops restarted.world).1
      sim.failure = none ∧ sim.outcome = ⟨true, "level complete"⟩ := by
  have hidle : restarted.phase = .idle := by decide +kernel
  have hover : restarted.world.gameOver = false := by decide +kernel
  obtain ⟨s₀, hstart, h⟩ := serve_simulates restarted hops hidle rfl hover
  have hphase : (s₀.serve lateTimers).2.phase = .completed ⟨true, "level complete"⟩ := by
    cases hstart.symm.trans (start_eq hidle rfl hover)
    decide +kernel
  obtain ⟨_, _, _, _, hcompleted, _⟩ := h lateTimers (by decide)
  obtain ⟨hfailure, _, houtcome, _⟩ := hcompleted _ hphase
  exact ⟨s₀, hstart, hphase, hfailure, houtcome⟩

end Session

end BlockRobot
