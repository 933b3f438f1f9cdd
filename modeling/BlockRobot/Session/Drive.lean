import BlockRobot.Run.Progress
import BlockRobot.Session.Basic

/-!
# Driving a session to its end

`drive` fires timers until none is left. It ends: a timer of the run either ends the run or lets the
machine take a step, and any other timer is used up.
-/

namespace BlockRobot.Session

/-- The steps that the machine may still take. -/
def allowance (s : Session) : Nat :=
  match s.machine with
  | some m => m.limits.maxSteps - m.steps
  | none => 0

/-- What a timer that fires uses up. -/
def effort (s : Session) : Nat := 2 * s.allowance + s.timers.waiting.length

theorem effort_step (s : Session) (h : s.pending = none) : s.step.effort ≤ s.effort := by
  unfold step
  split
  · next program machine _ hm =>
    obtain ⟨stop, m', w', ha⟩ : ∃ stop m' w', machine.advance program s.world = (stop, m', w') :=
      ⟨_, _, _, rfl⟩
    obtain ⟨hl, hs⟩ := Machine.advance_mono ha
    simp only [ha]
    cases stop with
    | acted a =>
      obtain ⟨_, hlt, hle⟩ := Machine.advance_acted ha
      simp only [effort, allowance, arm, disarm, emit, h, Timers.schedule, List.length_append,
        List.length_singleton, hl, hm]
      omega
    | exhausted =>
      simp only [finish, emit, effort, allowance, hl, hm]
      omega
    | failed f =>
      simp only [emit, effort, allowance, hl, hm]
      omega
  · exact Nat.le_refl _

theorem effort_onTimer (s : Session) (id : Nat) : (s.onTimer id).effort ≤ s.effort := by
  unfold onTimer
  split
  · simp only
    split
    · exact effort_step _ rfl
    · exact Nat.le_refl _
  · exact Nat.le_refl _

theorem effort_fire? {s s' : Session} {timer : Timer} (h : s.fire? = some (timer, s')) :
    s'.effort < s.effort := by
  unfold fire? Timers.next? at h
  cases hw : s.timers.waiting with
  | nil => simp [hw] at h
  | cons t rest =>
    simp only [hw, Option.some.injEq, Prod.mk.injEq] at h
    obtain ⟨_, rfl⟩ := h
    refine Nat.lt_of_le_of_lt (effort_onTimer _ _) ?_
    simp [effort, allowance, hw]

/-- A stretch of a live run: the delay before it and the events at its end. -/
structure Stretch where
  delay : Nat
  events : List Event
  deriving DecidableEq, Repr

/-- Fires timers until none is left. -/
def drive (s : Session) : List Stretch × Session :=
  match _h : s.fire? with
  | none => ([], s)
  | some (timer, s') =>
    let (rest, last) := drive s'.drain.2
    (⟨timer.delay, s'.drain.1⟩ :: rest, last)
termination_by s.effort
decreasing_by
  have := effort_fire? _h
  exact this

end BlockRobot.Session
