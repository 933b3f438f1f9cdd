import BlockRobot.Proofs.Run.Steps
import BlockRobot.Session.Basic

/-!
# Hosts of a session

A host drives a session by calls, in any order and number. `Session.respond` is one call and
`Session.serve` a list of them; what every call keeps, a host cannot break (`serve_invariant`).
-/

namespace BlockRobot

/-- What a host can ask of a session and of its timers. -/
inductive Call where
  | load (program : Program)
  | start
  | pause
  | resume
  | stop
  | onTimer (id : Nat)
  | drain
  | nextDue
  | cancel (id : Nat)

def Timers.without (t : Timers) (pending : Option Nat) : Timers :=
  ⟨t.issued, t.waiting.filter fun timer => pending != some timer.id⟩

theorem Timers.without_none (t : Timers) : t.without none = t := by
  have h : t.waiting.filter (fun timer => none != some timer.id) = t.waiting :=
    List.filter_eq_self.mpr fun _ _ => rfl
  rw [without, h]

theorem Timers.cancel_eq_without (t : Timers) (id : Nat) : t.cancel id = t.without (some id) := by
  rw [cancel, without]
  congr 1
  refine List.filter_congr fun timer _ => ?_
  simp [bne, eq_comm, Bool.beq_eq_decide_eq]

namespace Session

/-- The session after a command. A command that is refused leaves it as it was. -/
def after (s : Session) : Except ControlError Session → Session
  | .ok s' => s'
  | .error _ => s

/-- The events that a call hands out, and the session after it. -/
def respond (s : Session) : Call → List Event × Session
  | .load program => ([], s.load program)
  | .start => ([], s.after s.start)
  | .pause => ([], s.after s.pause)
  | .resume => ([], s.after s.resume)
  | .stop => ([], s.stop)
  | .onTimer id => ([], s.onTimer id)
  | .drain => s.drain
  | .nextDue =>
    match s.timers.next? with
    | some (_, timers) => ([], { s with timers := timers })
    | none => ([], s)
  | .cancel id => ([], { s with timers := s.timers.cancel id })

def serve (s : Session) : List Call → List Event × Session
  | [] => ([], s)
  | c :: rest => ((s.respond c).1 ++ ((s.respond c).2.serve rest).1, ((s.respond c).2.serve rest).2)

theorem serve_invariant {I : Session → Prop} (h : ∀ s c, I s → I (s.respond c).2) (s : Session)
    (calls : List Call) (hs : I s) : I (s.serve calls).2 := by
  induction calls generalizing s with
  | nil => exact hs
  | cons c rest ih => exact ih _ (h s c hs)

/-! ## Timers of a session -/

theorem disarm_eq (s : Session) :
    s.disarm = { s with timers := s.timers.without s.pending, pending := none } := by
  cases hp : s.pending with
  | none =>
    rw [Timers.without_none]
    simp only [disarm, hp]
    cases s
    cases hp
    rfl
  | some id =>
    simp only [disarm, hp, Timers.cancel_eq_without]

theorem arm_eq (s : Session) (delay : Nat) :
    s.arm delay = { s with
      timers := ((s.timers.without s.pending).schedule delay).2
      pending := some (s.timers.issued + 1) } := by
  rw [arm, disarm_eq]
  rfl

theorem stop_eq (s : Session) :
    s.stop = { s with
      timers := s.timers.without s.pending
      machine := none
      pending := none
      phase := .idle
      events := if s.phase = .idle then s.events else .stopped :: s.events } := by
  rw [stop, disarm_eq]
  simp only
  split
  · next h => rw [h]
  · rfl

def started (s : Session) (program : Program) : Session :=
  { s with
    timers := ((s.timers.without s.pending).schedule 0).2
    machine := some (.new program s.config.limits)
    pending := some (s.timers.issued + 1)
    phase := .running
    events := .started (Machine.new program s.config.limits).queueLength :: s.events }

theorem start_eq {s : Session} {program : Program} (hidle : s.phase = .idle)
    (hprogram : s.program = some program) (hover : s.world.gameOver = false) :
    s.start = .ok (s.started program) := by
  simp only [start, hidle, hprogram, hover, arm_eq, emit, started]
  rfl

/-! ## Firing the timer of a run -/

inductive Fired (s : Session) (program : Program) (m : Machine) : Session → Prop where
  | acted {a : Action} {m₁ : Machine} {w₁ : World}
      (steps : Machine.Steps program m s.world [a] m₁ w₁) (applied : a.apply s.world = .ok w₁) :
      Fired s program m { s with
        world := w₁
        timers := (s.timers.schedule s.config.delay).2
        machine := some m₁
        pending := some (s.timers.issued + 1)
        events := .step m₁.cursor m₁.queueLength a :: s.events }
  | finished {m₁ m₂ : Machine} {outcome : Outcome}
      (steps : Machine.Steps program m s.world [] m₁ s.world)
      (halt : Machine.Halt program m₁ s.world none m₂) (judged : outcome = s.evaluator s.world m₂.used) :
      Fired s program m { s with
        machine := some m₂
        pending := none
        phase := .completed outcome
        events := .finished outcome.won outcome.message :: s.events }
  | failed {m₁ m₂ : Machine} {f : Failure} (steps : Machine.Steps program m s.world [] m₁ s.world)
      (halt : Machine.Halt program m₁ s.world (some f) m₂) :
      Fired s program m { s with
        machine := some m₂
        pending := none
        phase := .failed f.message
        events := .failed f.message f.action :: s.events }

theorem onTimer_stale {s : Session} {id : Nat} (h : s.pending ≠ some id) : s.onTimer id = s :=
  if_neg h

theorem onTimer_fired {s : Session} {id : Nat} {program : Program} {m : Machine}
    (hpending : s.pending = some id) (hphase : s.phase = .running)
    (hprogram : s.program = some program) (hmachine : s.machine = some m) :
    Fired s program m (s.onTimer id) := by
  have hstep : s.onTimer id = { s with pending := none }.step := by
    simp only [onTimer, hpending, hphase, if_true]
  rw [hstep]
  obtain ⟨world, evaluator, timers, config, program?, machine?, pending, phase, events⟩ := s
  simp only at hprogram hmachine hphase
  subst hprogram hmachine hphase
  rcases Machine.advance_cases program m world with
    ⟨a, m₁, w₁, hadv, hsteps, happ⟩ | ⟨f?, m₁, m₂, hadv, hsteps, hhalt⟩
  · simp only [step, hadv]
    exact .acted hsteps happ
  · simp only [step, hadv]
    cases f? with
    | none => exact .finished hsteps hhalt rfl
    | some f => exact .failed hsteps hhalt

/-! ## Calls -/

/-- How the parts of a session fit together: a timer is pending while the session runs, there is a
machine unless it is idle, and then also a program. -/
structure Consistent (s : Session) : Prop where
  pending_iff : s.pending.isSome = true ↔ s.phase = .running
  machine_iff : s.machine = none ↔ s.phase = .idle
  program_some : s.phase ≠ .idle → s.program.isSome = true
  pending_le : ∀ id, s.pending = some id → id ≤ s.timers.issued

/-- All that a call can do to a consistent session. -/
inductive Change (s : Session) : Call → List Event → Session → Prop where
  | load (program : Program) : Change s (.load program) [] { s.stop with program := some program }
  | stop : Change s .stop [] s.stop
  | started {program : Program} (idle : s.phase = .idle) (loaded : s.program = some program)
      (notOver : s.world.gameOver = false) :
      Change s .start [] (s.started program)
  | notStarted (e : ControlError) (refused : s.start = .error e) : Change s .start [] s
  | paused (running : s.phase = .running) :
      Change s .pause [] { s with
        timers := s.timers.without s.pending
        pending := none
        phase := .paused
        events := .paused s.progress.1 :: s.events }
  | notPaused (refused : s.phase ≠ .running) : Change s .pause [] s
  | resumed (paused : s.phase = .paused) :
      Change s .resume [] { s with
        timers := ((s.timers.without s.pending).schedule s.config.delay).2
        pending := some (s.timers.issued + 1)
        phase := .running
        events := .resumed s.progress.1 :: s.events }
  | notResumed (refused : s.phase ≠ .paused) : Change s .resume [] s
  | fired {id : Nat} {program : Program} {m : Machine} {s' : Session} (pending : s.pending = some id)
      (running : s.phase = .running) (loaded : s.program = some program) (machine : s.machine = some m)
      (fired : Fired s program m s') : Change s (.onTimer id) [] s'
  | stale {id : Nat} (stale : s.pending ≠ some id) : Change s (.onTimer id) [] s
  | drain : Change s .drain s.events.reverse { s with events := [] }
  | nextDue : Change s .nextDue [] { s with timers := ⟨s.timers.issued, s.timers.waiting.tail⟩ }
  | cancel (id : Nat) : Change s (.cancel id) [] { s with timers := s.timers.cancel id }

theorem Consistent.underway {s : Session} (hs : s.Consistent) (h : s.phase ≠ .idle) :
    s.program.isSome = true ∧ s.machine ≠ none :=
  ⟨hs.program_some h, fun hm => h (hs.machine_iff.mp hm)⟩

theorem Consistent.running {s : Session} {id : Nat} (hs : s.Consistent) (h : s.pending = some id) :
    s.phase = .running ∧ (∃ program, s.program = some program) ∧ ∃ m, s.machine = some m := by
  have hrun : s.phase = .running := hs.pending_iff.mp (by rw [h]; rfl)
  obtain ⟨hprogram, hmachine⟩ := hs.underway (by simp [hrun])
  exact ⟨hrun, Option.isSome_iff_exists.mp hprogram, Option.ne_none_iff_exists'.mp hmachine⟩

theorem start_change (s : Session) : Change s .start [] (s.after s.start) := by
  cases hstart : s.start with
  | error e => exact .notStarted e hstart
  | ok s' =>
    -- Of all ways through `start`, only one does not refuse.
    obtain ⟨program, hidle, hprogram, hover⟩ : ∃ program, s.phase = .idle ∧ s.program = some program ∧
        s.world.gameOver = false := by
      unfold start at hstart
      split at hstart <;> try cases hstart
      next hidle =>
        split at hstart <;> try cases hstart
        next program hprogram =>
          split at hstart <;> try cases hstart
          next hover => exact ⟨program, hidle, hprogram, by simpa using hover⟩
    cases hstart.symm.trans (start_eq hidle hprogram hover)
    exact .started hidle hprogram hover

theorem pause_change (s : Session) : Change s .pause [] (s.after s.pause) := by
  by_cases hrun : s.phase = .running
  · have h : s.pause = .ok { s with
        timers := s.timers.without s.pending
        pending := none
        phase := .paused
        events := .paused s.progress.1 :: s.events } := by
      rw [pause, if_pos hrun, disarm_eq]
      rfl
    rw [h]
    exact .paused hrun
  · rw [pause, if_neg hrun]
    exact .notPaused hrun

theorem resume_change (s : Session) : Change s .resume [] (s.after s.resume) := by
  by_cases hpaused : s.phase = .paused
  · rw [resume, if_pos hpaused]
    simp only [arm_eq]
    exact .resumed hpaused
  · rw [resume, if_neg hpaused]
    exact .notResumed hpaused

theorem respond_change {s : Session} (hs : s.Consistent) (c : Call) :
    Change s c (s.respond c).1 (s.respond c).2 := by
  cases c with
  | load program => exact .load program
  | start => exact start_change s
  | pause => exact pause_change s
  | resume => exact resume_change s
  | stop => exact .stop
  | onTimer id =>
    by_cases hp : s.pending = some id
    · obtain ⟨hrun, ⟨program, hprogram⟩, m, hm⟩ := hs.running hp
      exact .fired hp hrun hprogram hm (onTimer_fired hp hrun hprogram hm)
    · have h : s.onTimer id = s := onTimer_stale hp
      simp only [respond, h]
      exact .stale hp
  | drain => exact .drain
  | nextDue =>
    obtain ⟨world, evaluator, ⟨issued, waiting⟩, config, program, machine, pending, phase, events⟩ := s
    cases waiting with
    | nil => exact .nextDue
    | cons timer rest => exact .nextDue
  | cancel id => exact .cancel id

/-! ## Consistency -/

theorem consistent_new (w : World) (evaluator : Evaluator) (config : Config) :
    (Session.new w evaluator config).Consistent where
  pending_iff := by simp [Session.new]
  machine_iff := by simp [Session.new]
  program_some h := absurd rfl h
  pending_le id h := by cases h

theorem consistent_stop (s : Session) (program : Option Program) :
    { s.stop with program := program }.Consistent where
  pending_iff := by simp [stop_eq]
  machine_iff := by simp [stop_eq]
  program_some h := absurd (by simp [stop_eq]) h
  pending_le id h := by simp [stop_eq] at h

theorem consistent_started (s : Session) {program : Program} (h : s.program = some program) :
    (s.started program).Consistent where
  pending_iff := by simp [started]
  machine_iff := by simp [started]
  program_some _ := by simp [started, h]
  pending_le id h := by cases h; exact Nat.le_refl _

theorem Consistent.fired {s s' : Session} {program : Program} {m : Machine} (hs : s.Consistent)
    (hrun : s.phase = .running) (h : Fired s program m s') : s'.Consistent := by
  obtain ⟨hprogram, _⟩ := hs.underway (by simp [hrun])
  cases h with
  | acted =>
    exact ⟨by simp [hrun], by simp [hrun], fun _ => hprogram, fun id h => by cases h; exact Nat.le_refl _⟩
  | finished => exact ⟨by simp, by simp, fun _ => hprogram, fun id h => by cases h⟩
  | failed => exact ⟨by simp, by simp, fun _ => hprogram, fun id h => by cases h⟩

theorem Consistent.change {s s' : Session} {c : Call} {events : List Event} (hs : s.Consistent)
    (h : Change s c events s') : s'.Consistent := by
  cases h with
  | load program => exact consistent_stop s (some program)
  | stop => exact consistent_stop s s.stop.program
  | started _ loaded _ => exact consistent_started s loaded
  | paused running =>
    obtain ⟨hp, hm⟩ := hs.underway (by simp [running])
    exact ⟨by simp, by simpa using hm, fun _ => hp, fun id h => by cases h⟩
  | resumed paused =>
    obtain ⟨hp, hm⟩ := hs.underway (by simp [paused])
    exact ⟨by simp, by simpa using hm, fun _ => hp, fun id h => by cases h; exact Nat.le_refl _⟩
  | fired _ running _ _ fired => exact hs.fired running fired
  | drain | nextDue | cancel => exact ⟨hs.1, hs.2, hs.3, hs.4⟩
  | notStarted | notPaused | notResumed | stale => exact hs

theorem Consistent.respond {s : Session} (hs : s.Consistent) (c : Call) : (s.respond c).2.Consistent :=
  hs.change (respond_change hs c)

theorem Consistent.serve {s : Session} (hs : s.Consistent) (calls : List Call) :
    (s.serve calls).2.Consistent :=
  serve_invariant (fun _ c h => h.respond c) s calls hs

end Session

end BlockRobot
