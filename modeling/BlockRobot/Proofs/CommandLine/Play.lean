import BlockRobot.CommandLine.Commands
import BlockRobot.Proofs.Run.Counters
import BlockRobot.Proofs.Session.Live

/-!
# Playing a level

The loop that plays a level fires the timer of its session until none waits. While the session runs, one
timer waits and it is the pending one (`Driven`), and each firing costs the machine a step that the limits
count. So the loop comes to an end, at an end of the run, and has the verdict of the simulation:
`play_iff_simulate`.
-/

namespace BlockRobot

namespace Machine

variable {program : Program} {m m₁ m₂ : Machine} {w w₁ : World}

theorem Halt.steps_le {f? : Option Failure} (h : Halt program m w f? m₁) :
    m₁.steps ≤ m.steps + 1 := by
  cases h with
  | exhausted => exact Nat.le_succ _
  | _ => exact Nat.le_refl _

end Machine

namespace Session

variable {s s' : Session}

/-! ## One firing -/

/-- Whether a session has nothing to wait for but its own timer: it runs and that one waits, or it has
come to rest and none does. -/
inductive Driven (s : Session) : Prop where
  | armed (timer : Timer) (running : s.phase = .running) (waiting : s.timers.waiting = [timer])
      (pending : s.pending = some timer.id)
  | rested (terminal : s.phase.isTerminal = true) (waiting : s.timers.waiting = [])

theorem fire?_eq_none_iff : s.fire? = none ↔ s.timers.waiting = [] := by
  cases hwaiting : s.timers.waiting with
  | nil => simp [fire?, Timers.next?, hwaiting]
  | cons timer rest => simp [fire?, Timers.next?, hwaiting]

theorem fire?_eq_some {timer : Timer} (h : s.fire? = some (timer, s')) :
    ∃ rest, s.timers.waiting = timer :: rest ∧
      s' = { s with timers := ⟨s.timers.issued, rest⟩ }.onTimer timer.id := by
  cases hwaiting : s.timers.waiting with
  | nil => rw [fire?_eq_none_iff.mpr hwaiting] at h; cases h
  | cons first rest =>
    simp only [fire?, Timers.next?, hwaiting, Option.some.injEq, Prod.mk.injEq] at h
    obtain ⟨rfl, rfl⟩ := h
    exact ⟨rest, rfl, rfl⟩

def firing (timer : Timer) : List Call := [.nextDue, .onTimer timer.id, .drain]

theorem serve_firing {timer : Timer} (h : s.fire? = some (timer, s')) (calls : List Call) :
    (s.serve (firing timer ++ calls)).2 = (s'.drain.2.serve calls).2 := by
  obtain ⟨rest, hwaiting, rfl⟩ := fire?_eq_some h
  simp only [firing, List.cons_append, List.nil_append, serve, respond, Timers.next?, hwaiting]

theorem Consistent.firing {timer : Timer} (hs : s.Consistent) (h : s.fire? = some (timer, s')) :
    s'.drain.2.Consistent := by
  have hserve := hs.serve (Session.firing timer)
  rwa [← List.append_nil (Session.firing timer), serve_firing h] at hserve

theorem Driven.firing {timer : Timer} (hs : s.Consistent) (hdriven : s.Driven)
    (h : s.fire? = some (timer, s')) : s'.drain.2.Driven := by
  obtain ⟨rest, hwaiting, rfl⟩ := fire?_eq_some h
  cases hdriven with
  | rested _ waiting => rw [waiting] at hwaiting; cases hwaiting
  | armed _ running waiting pending =>
    rw [waiting] at hwaiting
    cases hwaiting
    obtain ⟨_, ⟨program, hprogram⟩, m, hm⟩ := hs.running pending
    have hfired := onTimer_fired (s := { s with timers := ⟨s.timers.issued, []⟩ }) pending running
      hprogram hm
    generalize onTimer { s with timers := ⟨s.timers.issued, []⟩ } timer.id = s₁ at hfired
    cases hfired with
    | acted => exact .armed _ running rfl rfl
    | finished => exact .rested rfl rfl
    | failed => exact .rested rfl rfl

/-! ## The whole loop -/

theorem drive_serve (s : Session) :
    ∃ calls, (∀ c ∈ calls, c.keepsRun = true) ∧ s.drive.2 = (s.serve calls).2 := by
  fun_induction drive s with
  | case1 s h => exact ⟨[], by simp, rfl⟩
  | case2 s timer s' h rest last hdrive ih =>
    obtain ⟨calls, hkeeps, hlast⟩ := ih
    refine ⟨firing timer ++ calls, ?_, ?_⟩
    · simpa [firing, Call.keepsRun] using hkeeps
    · rw [serve_firing h, ← hlast, hdrive]

theorem Driven.drive (hs : s.Consistent) (hdriven : s.Driven) :
    s.drive.2.Driven ∧ s.drive.2.timers.waiting = [] := by
  fun_induction Session.drive s with
  | case1 s h => exact ⟨hdriven, fire?_eq_none_iff.mp h⟩
  | case2 s timer s' h rest last hdrive ih =>
    have hlast := ih (hs.firing h) (hdriven.firing hs h)
    rwa [hdrive] at hlast

theorem Driven.length_waiting_le (hdriven : s.Driven) : s.timers.waiting.length ≤ 1 := by
  cases hdriven with
  | armed _ _ waiting => simp [waiting]
  | rested _ waiting => simp [waiting]

/-- Each firing but the last one takes a step of the machine. -/
theorem Driven.length_drive_le (hs : s.Consistent) (hdriven : s.Driven) :
    s.drive.1.length ≤ s.allowance + s.timers.waiting.length := by
  fun_induction Session.drive s with
  | case1 s h => exact Nat.zero_le _
  | case2 s timer s' h rest last hdrive ih =>
    have hdriven' := hdriven.firing hs h
    have hrest := ih (hs.firing h) hdriven'
    have heffort : s'.effort < s.effort := effort_fire? h
    change s'.drain.2.effort < s.effort at heffort
    obtain ⟨first, hwaiting, _⟩ := fire?_eq_some h
    have hle := hdriven.length_waiting_le
    have hle' := hdriven'.length_waiting_le
    rw [hdrive] at hrest
    simp only [effort, hwaiting, List.length_cons] at heffort hle hrest ⊢
    omega

/-! ## Beside a simulation -/

theorem Follows.machine_steps_le {program : Program} {limits : Limits} {w₀ : World}
    {evaluator : Evaluator} {since : List Event}
    (h : Follows program (.new program limits) w₀ evaluator since s) {m : Machine}
    (hm : s.machine = some m) : m.steps ≤ limits.maxSteps + 1 := by
  have hbound {as : List Action} {m₁ : Machine} {w₁ : World}
      (hsteps : Machine.Steps program (.new program limits) w₀ as m₁ w₁) :
      m₁.steps ≤ limits.maxSteps := hsteps.counts.within (Nat.zero_le _)
  cases h with
  | underway _ _ _ machine steps =>
    cases hm.symm.trans machine
    exact Nat.le_succ_of_le (hbound steps)
  | completed _ machine steps halt =>
    cases hm.symm.trans machine
    exact Nat.le_trans halt.steps_le (Nat.succ_le_succ (hbound steps))
  | failed _ machine steps halt =>
    cases hm.symm.trans machine
    exact Nat.le_trans halt.steps_le (Nat.succ_le_succ (hbound steps))

theorem driven_started (s : Session) {program : Program} (hwaiting : s.timers.waiting = []) :
    (s.started program).drain.2.Driven := by
  refine .armed ⟨s.timers.issued + 1, 0⟩ rfl ?_ rfl
  simp [drain, started, Timers.schedule, Timers.without, hwaiting]

end Session

namespace CommandLine

/-! ## Verdicts -/

variable (program : Program) (level : Level) (config : Config)

def loaded : Session := (Session.new level.world level.goal config).load program

/-- What playing comes to: its stretches, and the session when no timer of it waits any more. -/
def played : List Session.Stretch × Session :=
  ((loaded program level config).started program).drain.2.drive

theorem start_loaded (hover : level.world.gameOver = false) :
    (loaded program level config).start = .ok ((loaded program level config).started program) :=
  Session.start_eq rfl rfl hover

theorem playReply_errors (hover : level.world.gameOver = false) (json : Bool) :
    (playReply json config level program).errors =
      (restError (played program level config).2.phase).toList := by
  have hstart := start_loaded program level config hover
  simp only [loaded] at hstart
  simp only [playReply, hstart, played, loaded]

theorem follows_played :
    ∃ since, Session.Follows program (.new program config.limits) level.world level.goal since
      (played program level config).2 := by
  obtain ⟨calls, hkeeps, hlast⟩ :=
    ((loaded program level config).started program).drain.2.drive_serve
  have hfollows := Session.follows_started (loaded program level config) rfl
  have hconsistent := Session.consistent_started (loaded program level config) rfl
  obtain ⟨new, _, h⟩ := hfollows.serve hconsistent
    (List.forall_mem_cons.mpr ⟨(rfl : Call.keepsRun .drain = true), hkeeps⟩)
  rw [played, hlast]
  exact ⟨_, h⟩

theorem driven_played :
    (played program level config).2.Driven ∧ (played program level config).2.timers.waiting = [] :=
  (Session.driven_started (loaded program level config) rfl).drive
    ((Session.consistent_started (loaded program level config) rfl).serve [.drain])

theorem length_played_le : (played program level config).1.length ≤ config.limits.maxSteps + 1 :=
  (Session.driven_started (loaded program level config) rfl).length_drive_le
    ((Session.consistent_started (loaded program level config) rfl).serve [.drain])

theorem terminal_played :
    (∃ outcome, (played program level config).2.phase = .completed outcome) ∨
      ∃ reason, (played program level config).2.phase = .failed reason := by
  obtain ⟨hdriven, hwaiting⟩ := driven_played program level config
  cases hdriven with
  | armed _ _ waiting =>
    rw [hwaiting] at waiting
    cases waiting
  | rested terminal =>
    revert terminal
    cases (played program level config).2.phase with
    | completed outcome => exact fun _ => .inl ⟨outcome, rfl⟩
    | failed reason => exact fun _ => .inr ⟨reason, rfl⟩
    | idle | running | paused => exact fun terminal => Bool.noConfusion terminal

/-- Playing a level takes no more timers than the limits allow steps, and one that ends it. It comes to
the verdict of the simulation. -/
theorem play_iff_simulate (hover : level.world.gameOver = false) :
    ∃ s₀, ((Session.new level.world level.goal config).load program).start = .ok s₀ ∧
      let (stretches, last) := s₀.drain.2.drive
      stretches.length ≤ config.limits.maxSteps + 1 ∧
      last.timers.isIdle = true ∧
      ((∃ outcome, last.phase = .completed outcome) ∨ ∃ reason, last.phase = .failed reason) ∧
      (∀ m, last.machine = some m → m.steps ≤ config.limits.maxSteps + 1) ∧
      ∀ json json', (playReply json config level program).errors = [] ↔
        (simulateReply json' config.limits level program).errors = [] := by
  obtain ⟨since, hfollows⟩ := follows_played program level config
  refine ⟨_, start_loaded program level config hover, length_played_le program level config, ?_,
    terminal_played program level config, fun m hm => hfollows.machine_steps_le hm,
    fun json json' => ?_⟩
  · exact List.isEmpty_iff.mpr (driven_played program level config).2
  · rw [playReply_errors program level config hover, simulateReply, Reply.ofText]
    rcases terminal_played program level config with ⟨outcome, hphase⟩ | ⟨reason, hphase⟩
    · obtain ⟨used, _, hsim⟩ := hfollows.simulation_completed hphase
      rw [hphase, hsim]
      exact Iff.rfl
    · -- A run that fails is not won, however it is reported.
      obtain ⟨used, f, earlier, _, _, _, hsim⟩ := hfollows.simulation_failed hphase
      rw [hphase, hsim]
      simp [restError, notSolved]

def twirl : Program := ⟨"1", none, .empty, [.whileLoop (.and []) [.turnLeft]], 0, .empty, []⟩

def hall : Level := ⟨World.new 1 1, .empty⟩

def impatient : Config := ⟨0, ⟨9, 10, 10⟩⟩

theorem twirl_play_iff_simulate :
    hall.world.gameOver = false ∧
    (playReply true impatient hall twirl).errors ≠ [] ∧
    ∃ s₀, ((Session.new hall.world hall.goal impatient).load twirl).start = .ok s₀ ∧
      s₀.drain.2.drive.1.length ≤ 10 ∧ s₀.drain.2.drive.2.timers.isIdle = true := by
  obtain ⟨s₀, hstart, hlength, hidle, _, _, hiff⟩ := play_iff_simulate twirl hall impatient rfl
  have hsimulate : (simulateReply false impatient.limits hall twirl).errors ≠ [] := by decide +kernel
  exact ⟨rfl, fun h => hsimulate ((hiff true false).mp h), s₀, hstart, hlength, hidle⟩

end CommandLine

end BlockRobot
