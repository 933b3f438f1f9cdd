import BlockRobot.Proofs.Session.Host

/-!
# Timers and the world of a session

Timers are numbered upwards, so one that has fired or was cancelled stays without effect. A host that
takes the pending timer away before it fires it leaves no other timer waiting, and only the pending
timer changes the world: `serve_timing`.
-/

namespace BlockRobot.Session

variable {s s' : Session} {c : Call} {events : List Event}

/-! ## Numbers of timers -/

theorem Change.issued_le (h : Change s c events s') : s.timers.issued ≤ s'.timers.issued := by
  cases h with
  | load | stop => simp [stop_eq, Timers.without]
  | started | resumed => exact Nat.le_succ _
  | fired _ _ _ _ fired =>
    cases fired with
    | acted => exact Nat.le_succ _
    | finished | failed => exact Nat.le_refl _
  | _ => exact Nat.le_refl _

theorem Change.pending_fresh (h : Change s c events s') {id : Nat} (hid : s'.pending = some id) :
    s.pending = some id ∨ s.timers.issued < id := by
  cases h with
  | load | stop => simp [stop_eq] at hid
  | started | resumed =>
    cases hid
    exact .inr (Nat.lt_succ_self _)
  | paused => cases hid
  | fired _ _ _ _ fired =>
    cases fired with
    | acted =>
      cases hid
      exact .inr (Nat.lt_succ_self _)
    | finished | failed => cases hid
  | _ => exact .inl hid

/-- A timer that was given out and is not pending. -/
def Retired (id : Nat) (s : Session) : Prop := id ≤ s.timers.issued ∧ s.pending ≠ some id

theorem Retired.change {id : Nat} (hid : Retired id s) (h : Change s c events s') : Retired id s' := by
  refine ⟨Nat.le_trans hid.1 h.issued_le, fun hp => ?_⟩
  rcases h.pending_fresh hp with hp | hlt
  · exact hid.2 hp
  · exact absurd hid.1 (Nat.not_le.mpr hlt)

theorem Retired.serve {id : Nat} (hs : s.Consistent) (hid : Retired id s) (calls : List Call) :
    Retired id (s.serve calls).2 := by
  have h := serve_invariant (I := fun s => s.Consistent ∧ Retired id s)
    (fun s c h => ⟨h.1.respond c, h.2.change (respond_change h.1 c)⟩) s calls ⟨hs, hid⟩
  exact h.2

/-- Firing, pausing, stopping and loading retire the pending timer. -/
theorem Change.retires (hs : s.Consistent) (h : Change s c events s') {id : Nat}
    (hid : s.pending = some id)
    (hc : c = .onTimer id ∨ c = .pause ∨ c = .stop ∨ ∃ program, c = .load program) :
    Retired id s' := by
  have hle := hs.pending_le id hid
  have hrun := (hs.running hid).1
  refine ⟨Nat.le_trans hle h.issued_le, fun hp => ?_⟩
  cases h with
  | load | stop => simp [stop_eq] at hp
  | paused => cases hp
  | notPaused refused => exact refused hrun
  | fired _ _ _ _ fired =>
    cases fired with
    | acted =>
      cases hp
      exact absurd hle (Nat.not_succ_le_self _)
    | finished | failed => cases hp
  | stale stale => simp_all
  | _ => simp at hc

/-! ## Waiting timers -/

def Tidy (s : Session) : Prop :=
  s.timers.waiting = [] ∨ ∃ timer, s.timers.waiting = [timer] ∧ s.pending = some timer.id

/-- Whether a call fires the pending timer only if that does not wait any more. -/
def takenBefore (s : Session) : Call → Bool
  | .onTimer id => s.pending != some id || s.timers.waiting.all (·.id != id)
  | _ => true

def allTaken (s : Session) : List Call → Bool
  | [] => true
  | c :: rest => s.takenBefore c && (s.respond c).2.allTaken rest

theorem schedule_of_nil {t : Timers} (h : t.waiting = []) (delay : Nat) :
    (t.schedule delay).2.waiting = [⟨t.issued + 1, delay⟩] := by
  simp [Timers.schedule, h]

theorem Tidy.without_eq_nil (h : s.Tidy) : (s.timers.without s.pending).waiting = [] := by
  rcases h with h | ⟨timer, h, hp⟩
  · simp [Timers.without, h]
  · simp [Timers.without, h, hp]

theorem Tidy.change (hs : s.Tidy) (h : Change s c events s') (htaken : s.takenBefore c = true) :
    s'.Tidy := by
  cases h with
  | load | stop => exact .inl (by simp [stop_eq, hs.without_eq_nil])
  | started | resumed => exact .inr ⟨_, schedule_of_nil hs.without_eq_nil _, rfl⟩
  | paused => exact .inl hs.without_eq_nil
  | @fired id _ _ _ pending _ _ _ fired =>
    -- A timer that waits is the pending one, and that was taken away before it fired.
    have hnil : s.timers.waiting = [] := by
      rcases hs with h | ⟨timer, h, hp⟩
      · exact h
      · obtain rfl : id = timer.id := Option.some.inj (pending.symm.trans hp)
        simp [takenBefore, pending, h] at htaken
    cases fired with
    | acted => exact .inr ⟨_, schedule_of_nil hnil _, rfl⟩
    | finished | failed => exact .inl hnil
  | nextDue =>
    rcases hs with h | ⟨timer, h, _⟩
    · exact .inl (by simp [h])
    · exact .inl (by simp [h])
  | cancel id =>
    rcases hs with h | ⟨timer, h, hp⟩
    · exact .inl (by simp [Timers.cancel, h])
    · by_cases heq : timer.id = id
      · exact .inl (by simp [Timers.cancel, h, heq])
      · exact .inr ⟨timer, by simp [Timers.cancel, h, heq], hp⟩
  | _ => exact hs

theorem Tidy.serve (hc : s.Consistent) (hs : s.Tidy) {calls : List Call}
    (htaken : s.allTaken calls = true) : (s.serve calls).2.Tidy := by
  induction calls generalizing s with
  | nil => exact hs
  | cons c rest ih =>
    rw [allTaken, Bool.and_eq_true] at htaken
    exact ih (hc.respond c) (hs.change (respond_change hc c) htaken.1) htaken.2

/-! ## The world of a session -/

theorem Change.world (h : Change s c events s') :
    s'.world = s.world ∨ ∃ id index total a, c = .onTimer id ∧ s.pending = some id ∧
      a.apply s.world = .ok s'.world ∧ s'.events = .step index total a :: s.events := by
  cases h with
  | load | stop => exact .inl (by simp [stop_eq])
  | @fired id _ _ _ pending _ _ _ fired =>
    cases fired with
    | acted _ applied => exact .inr ⟨id, _, _, _, rfl, pending, applied, rfl⟩
    | finished | failed => exact .inl rfl
  | _ => exact .inl rfl

/-- What holds of a session after any calls, from when it was new. -/
theorem serve_timing (w : World) (evaluator : Evaluator) (config : Config) (calls : List Call) :
    let start := Session.new w evaluator config
    let s := (start.serve calls).2
    -- The parts of the session agree, so that a pending timer always has a run to go on with.
    (s.pending.isSome = true ↔ s.phase = .running) ∧
    (s.machine = none ↔ s.phase = .idle) ∧
    (s.phase ≠ .idle → s.program.isSome = true) ∧
    (∀ id, s.pending = some id → s.phase = .running ∧ s.program.isSome = true ∧ s.machine.isSome = true) ∧
    -- No timer waits but the pending one.
    (start.allTaken calls = true →
      (∀ timer ∈ s.timers.waiting, s.pending = some timer.id) ∧ s.timers.waiting.length ≤ 1 ∧
      (s.phase ≠ .running → s.timers.isIdle = true)) ∧
    -- Numbers only grow, and a timer that has fired or was cancelled stays without effect.
    (∀ id, s.pending = some id → id ≤ s.timers.issued) ∧
    (∀ c, s.timers.issued ≤ (s.respond c).2.timers.issued ∧
      ∀ id, (s.respond c).2.pending = some id → s.pending = some id ∨ s.timers.issued < id) ∧
    (∀ c id, s.pending = some id →
      (c = .onTimer id ∨ c = .pause ∨ c = .stop ∨ ∃ program, c = .load program) →
      ∀ later, let s' := ((s.respond c).2.serve later).2
        s'.pending ≠ some id ∧ s'.onTimer id = s') ∧
    -- The world changes by one action of the pending timer at most, and other timers are ignored.
    (∀ c, (s.respond c).2.world = s.world ∨ ∃ id index total a, c = .onTimer id ∧ s.pending = some id ∧
      a.apply s.world = .ok (s.respond c).2.world ∧
      (s.respond c).2.events = .step index total a :: s.events) ∧
    (∀ id, s.pending ≠ some id → s.onTimer id = s) := by
  intro start s
  have hc : s.Consistent := (consistent_new w evaluator config).serve calls
  refine ⟨hc.pending_iff, hc.machine_iff, hc.program_some, fun id hid => ?_, fun htaken => ?_,
    hc.pending_le, fun c => ?_, fun c id hid hcall later => ?_, fun c => ?_, fun id => onTimer_stale⟩
  · obtain ⟨hrun, ⟨program, hprogram⟩, m, hm⟩ := hc.running hid
    exact ⟨hrun, by rw [hprogram]; rfl, by rw [hm]; rfl⟩
  · have htidy : s.Tidy := Tidy.serve (consistent_new w evaluator config) (.inl rfl) htaken
    rcases htidy with h | ⟨timer, h, hp⟩
    · exact ⟨by simp [h], by simp [h], fun _ => by simp [Timers.isIdle, h]⟩
    · refine ⟨by simp [h, hp], by simp [h], fun hphase => ?_⟩
      exact absurd (hc.running hp).1 hphase
  · have h := respond_change hc c
    exact ⟨h.issued_le, fun id hid => h.pending_fresh hid⟩
  · have hretired := (respond_change hc c).retires hc hid hcall
    have hlater := hretired.serve (hc.respond c) later
    exact ⟨hlater.2, onTimer_stale hlater.2⟩
  · exact (respond_change hc c).world

def turns : Program := ⟨"1", none, .empty, [.turnLeft, .turnLeft], 0, .empty, []⟩

/-- A session that has been paused and resumed between its two actions. -/
def resumedCalls : List Call := [.load turns, .start, .nextDue, .onTimer 1, .pause, .resume]

theorem timing_resumed :
    let start := Session.new (World.new 1 1) Goal.empty .standard
    let s := (start.serve resumedCalls).2
    start.allTaken resumedCalls = true ∧ s.timers.waiting.length ≤ 1 ∧ s.pending = some 3 ∧
      ∀ later, let s' := ((s.respond .stop).2.serve later).2
        s'.onTimer 3 = s' := by
  intro start s
  have htaken : start.allTaken resumedCalls = true := by decide +kernel
  have hpending : s.pending = some 3 := by decide +kernel
  obtain ⟨_, _, _, _, hwaiting, _, _, hretired, _⟩ :=
    serve_timing (World.new 1 1) Goal.empty .standard resumedCalls
  refine ⟨htaken, (hwaiting htaken).2.1, hpending, fun later => ?_⟩
  exact (hretired .stop 3 hpending (.inr (.inr (.inl rfl))) later).2

end BlockRobot.Session
