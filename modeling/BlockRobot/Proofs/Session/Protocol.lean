import BlockRobot.Proofs.Run.Counters
import BlockRobot.Proofs.Session.Host
import Mathlib.Computability.RegularExpressions

/-!
# The events of a session

The kinds of events that a session reports spell the beginning of a word of `EventKind.protocol`, its
latest event tells its phase, and the numbers that events carry go on from those before them. Every call
keeps all of it (`Reported.change`), so no host can break it: `Session.serve_reports`.
-/

namespace BlockRobot

inductive EventKind where
  | started
  | step
  | paused
  | resumed
  | stopped
  | finished
  | failed
  deriving DecidableEq

/-! ## The words of events -/

namespace EventKind

open RegularExpression (char)

/-- A run that has been started: steps, and pauses that are over. -/
def underway : RegularExpression EventKind :=
  char started * (char step + char paused * char resumed).star

/-- What may stand between a run that goes on and its being stopped. -/
def ending : RegularExpression EventKind := 1 + char paused + char finished + char failed

/-- Runs one after another, all of which were stopped in the end. -/
def protocol : RegularExpression EventKind := (underway * ending * char stopped).star

theorem mem_char (k : EventKind) : [k] ∈ (char k).matches' := rfl

theorem append_mem_star {P : RegularExpression EventKind} {x y : List EventKind}
    (hx : x ∈ P.star.matches') (hy : y ∈ P.matches') : x ++ y ∈ P.star.matches' := by
  have hle : P.star.matches' * P.matches' ≤ P.star.matches' := kstar_mul_le_kstar
  exact hle (Language.append_mem_mul hx hy)

variable {x y : List EventKind}

theorem append_started (hx : x ∈ protocol.matches') :
    x ++ [started] ∈ (protocol * underway).matches' := by
  have hstarted : [started] ∈ underway.matches' :=
    Language.append_mem_mul (mem_char started) (Language.nil_mem_kstar _)
  exact Language.append_mem_mul hx hstarted

theorem append_underway (hx : x ∈ (protocol * underway).matches')
    (hy : y ∈ (char step + char paused * char resumed).matches') :
    x ++ y ∈ (protocol * underway).matches' := by
  obtain ⟨p, hp, u, hu, rfl⟩ := Language.mem_mul.mp hx
  obtain ⟨first, hfirst, rest, hrest, rfl⟩ := Language.mem_mul.mp hu
  have hmore : first ++ (rest ++ y) ∈ underway.matches' :=
    Language.append_mem_mul hfirst (append_mem_star hrest hy)
  rw [List.append_assoc, List.append_assoc]
  exact Language.append_mem_mul hp hmore

theorem append_stopped (hx : x ∈ (protocol * underway).matches') (hy : y ∈ ending.matches') :
    x ++ y ++ [stopped] ∈ protocol.matches' := by
  obtain ⟨p, hp, u, hu, rfl⟩ := Language.mem_mul.mp hx
  have hrun : u ++ y ++ [stopped] ∈ (underway * ending * char stopped).matches' :=
    Language.append_mem_mul (Language.append_mem_mul hu hy) (mem_char stopped)
  have hall := append_mem_star hp hrun
  rwa [← List.append_assoc, ← List.append_assoc] at hall

end EventKind

/-- What a session can have reported when it is in a phase. -/
def Phase.words : Phase → RegularExpression EventKind
  | .idle => EventKind.protocol
  | .running => EventKind.protocol * EventKind.underway
  | .paused => EventKind.protocol * EventKind.underway * .char .paused
  | .completed _ => EventKind.protocol * EventKind.underway * .char .finished
  | .failed _ => EventKind.protocol * EventKind.underway * .char .failed

theorem Phase.append_stopped {phase : Phase} (hphase : phase ≠ .idle) {x : List EventKind}
    (hx : x ∈ phase.words.matches') : x ++ [.stopped] ∈ EventKind.protocol.matches' := by
  cases phase with
  | idle => exact absurd rfl hphase
  | running =>
    have h := EventKind.append_stopped hx (y := []) (.inl (.inl (.inl rfl)))
    rwa [List.append_nil] at h
  | paused =>
    obtain ⟨y, hy, _, rfl, rfl⟩ := Language.mem_mul.mp hx
    exact EventKind.append_stopped hy (.inl (.inl (.inr rfl)))
  | completed outcome =>
    obtain ⟨y, hy, _, rfl, rfl⟩ := Language.mem_mul.mp hx
    exact EventKind.append_stopped hy (.inl (.inr rfl))
  | failed reason =>
    obtain ⟨y, hy, _, rfl, rfl⟩ := Language.mem_mul.mp hx
    exact EventKind.append_stopped hy (.inr rfl)

theorem Phase.exists_word {phase : Phase} {x : List EventKind} (hx : x ∈ phase.words.matches') :
    ∃ word ∈ EventKind.protocol.matches', x <+: word := by
  by_cases hphase : phase = .idle
  · subst hphase
    exact ⟨x, hx, List.prefix_refl x⟩
  · exact ⟨x ++ [.stopped], phase.append_stopped hphase hx, List.prefix_append x _⟩

/-! ## What single events say -/

namespace Event

def kind : Event → EventKind
  | .started _ => .started
  | .step _ _ _ => .step
  | .paused _ => .paused
  | .resumed _ => .resumed
  | .stopped => .stopped
  | .finished _ _ => .finished
  | .failed _ _ => .failed

def phase : Event → Phase
  | .started _ | .step _ _ _ | .resumed _ => .running
  | .paused _ => .paused
  | .stopped => .idle
  | .finished won message => .completed ⟨won, message⟩
  | .failed reason _ => .failed reason

def indexAfter (index : Nat) : Event → Nat
  | .started _ => 0
  | .step index _ _ => index
  | _ => index

def totalAfter (total : Nat) : Event → Nat
  | .started total => total
  | .step _ total _ => total
  | _ => total

end Event

def lastIndex (events : List Event) : Nat := events.foldl Event.indexAfter 0

def lastTotal (events : List Event) : Nat := events.foldl Event.totalAfter 0

/-- Whether the numbers of an event go on from those of the events before it. -/
def Event.NumberedAfter (earlier : List Event) : Event → Prop
  | .step index total _ => lastIndex earlier < index ∧ lastTotal earlier ≤ total ∧ index ≤ total
  | .paused index | .resumed index => index = lastIndex earlier
  | _ => True

theorem lastIndex_append (events : List Event) (e : Event) :
    lastIndex (events ++ [e]) = e.indexAfter (lastIndex events) := by
  simp [lastIndex]

theorem lastTotal_append (events : List Event) (e : Event) :
    lastTotal (events ++ [e]) = e.totalAfter (lastTotal events) := by
  simp [lastTotal]

/-! ## What a session has reported -/

namespace Session

structure Reported (history : List Event) (s : Session) : Prop where
  words : history.map Event.kind ∈ s.phase.words.matches'
  phase : s.phase = (history.getLast?.map Event.phase).getD .idle
  numbered : ∀ (n : Nat) (e : Event), history[n]? = some e → e.NumberedAfter (history.take n)
  progress : s.phase = .running ∨ s.phase = .paused →
    lastIndex history = s.progress.1 ∧ lastTotal history ≤ s.progress.2

variable {history past : List Event} {s s' : Session}

theorem reported_new (w : World) (evaluator : Evaluator) (config : Config) :
    Reported [] (Session.new w evaluator config) where
  words := Language.nil_mem_kstar _
  phase := rfl
  numbered n e h := by simp at h
  progress h := by simp [Session.new] at h

theorem Reported.congr (h : Reported history s) (hphase : s'.phase = s.phase)
    (hmachine : s'.machine = s.machine) : Reported history s' where
  words := by rw [hphase]; exact h.words
  phase := hphase.trans h.phase
  numbered := h.numbered
  progress hrun := by
    have hprogress : s'.progress = s.progress := by simp only [Session.progress, hmachine]
    rw [hprogress]
    exact h.progress (hphase ▸ hrun)

theorem Reported.append (h : Reported history s) {e : Event} (hphase : s'.phase = e.phase)
    (hwords : history.map Event.kind ++ [e.kind] ∈ e.phase.words.matches')
    (hnumbered : e.NumberedAfter history)
    (hprogress : s'.phase = .running ∨ s'.phase = .paused →
      e.indexAfter (lastIndex history) = s'.progress.1 ∧
        e.totalAfter (lastTotal history) ≤ s'.progress.2) :
    Reported (history ++ [e]) s' where
  words := by rwa [hphase, List.map_append]
  phase := by rw [hphase, List.getLast?_concat]; rfl
  numbered n e' hn := by
    rcases Nat.lt_trichotomy n history.length with hlt | rfl | hgt
    · rw [List.getElem?_append_left hlt] at hn
      rw [List.take_append_of_le_length (Nat.le_of_lt hlt)]
      exact h.numbered n e' hn
    · rw [List.getElem?_concat_length] at hn
      cases hn
      rwa [List.take_left]
    · rw [List.getElem?_eq_none (by simp; omega)] at hn
      cases hn
  progress hrun := by
    rw [lastIndex_append, lastTotal_append]
    exact hprogress hrun

theorem Reported.stop (h : Reported (past ++ s.events.reverse) s) (program : Option Program) :
    Reported (past ++ s.stop.events.reverse) { s.stop with program := program } := by
  by_cases hidle : s.phase = .idle
  · simp only [stop_eq, hidle, if_true]
    refine ⟨?_, ?_, h.numbered, fun hrun => by simp at hrun⟩
    · exact hidle ▸ h.words
    · exact hidle ▸ h.phase
  · simp only [stop_eq, hidle, if_false, List.reverse_cons, ← List.append_assoc]
    exact h.append (e := .stopped) rfl (Phase.append_stopped hidle h.words) trivial
      fun hrun => by simp at hrun

theorem Reported.fired {program : Program} {m : Machine} (h : Reported (past ++ s.events.reverse) s)
    (hrun : s.phase = .running) (hm : s.machine = some m) (hfired : Fired s program m s') :
    Reported (past ++ s'.events.reverse) s' := by
  have hwords := h.words
  obtain ⟨hindex, htotal⟩ := h.progress (.inl hrun)
  simp only [hrun] at hwords
  simp only [Session.progress, hm] at hindex htotal
  cases hfired with
  | @acted a m₁ _ steps _ =>
    have hcounts := steps.counts
    have hcursor := hcounts.cursor
    have hactions := hcounts.actions
    have hlength := hcounts.queue
    have hle : m₁.cursor ≤ m₁.queueLength := Nat.le_add_right _ _
    rw [List.reverse_cons, ← List.append_assoc]
    refine h.append hrun (EventKind.append_underway hwords (.inl rfl)) ?_ fun _ => ⟨rfl, Nat.le_refl _⟩
    simp only [List.length_singleton] at hactions
    exact ⟨by omega, by omega, hle⟩
  | finished =>
    rw [List.reverse_cons, ← List.append_assoc]
    exact h.append rfl (Language.append_mem_mul hwords rfl) trivial fun hrun => by simp at hrun
  | failed =>
    rw [List.reverse_cons, ← List.append_assoc]
    exact h.append rfl (Language.append_mem_mul hwords rfl) trivial fun hrun => by simp at hrun

theorem Reported.change {c : Call} {out : List Event} (h : Reported (past ++ s.events.reverse) s)
    (hchange : Change s c out s') : Reported (past ++ (out ++ s'.events.reverse)) s' := by
  cases hchange with
  | load program => exact h.stop (some program)
  | stop => exact h.stop s.stop.program
  | started idle =>
    have hwords := h.words
    rw [idle] at hwords
    simp only [started, List.nil_append, List.reverse_cons, ← List.append_assoc]
    refine h.append rfl (EventKind.append_started hwords) trivial fun _ => ⟨rfl, Nat.le_refl _⟩
  | paused running =>
    have hwords := h.words
    rw [running] at hwords
    simp only [List.nil_append, List.reverse_cons, ← List.append_assoc]
    refine h.append rfl (Language.append_mem_mul hwords rfl) ?_ fun _ => h.progress (.inl running)
    exact (h.progress (.inl running)).1.symm
  | resumed paused =>
    have hwords := h.words
    rw [paused] at hwords
    obtain ⟨x, hx, _, rfl, hspelled⟩ := Language.mem_mul.mp hwords
    simp only [List.nil_append, List.reverse_cons, ← List.append_assoc]
    refine h.append rfl ?_ (h.progress (.inr paused)).1.symm fun _ => h.progress (.inr paused)
    rw [← hspelled, List.append_assoc]
    exact EventKind.append_underway hx (.inr ⟨_, rfl, _, rfl, rfl⟩)
  | fired _ running _ machine fired => exact h.fired running machine fired
  | drain =>
    rw [List.reverse_nil, List.append_nil]
    exact h.congr rfl rfl
  | nextDue | cancel => exact h.congr rfl rfl
  | notStarted | notPaused | notResumed | stale => exact h

theorem Reported.serve (hs : s.Consistent) (h : Reported (past ++ s.events.reverse) s)
    (calls : List Call) :
    Reported (past ++ ((s.serve calls).1 ++ (s.serve calls).2.events.reverse)) (s.serve calls).2 := by
  induction calls generalizing s past with
  | nil => exact h
  | cons c rest ih =>
    have hchange := respond_change hs c
    have hnext := h.change hchange
    rw [← List.append_assoc] at hnext
    have hrest := ih (hs.change hchange) hnext
    simp only [Session.serve, List.append_assoc] at hrest ⊢
    exact hrest

/-- What a new session has reported after any calls, drained or not. -/
theorem serve_reports (w : World) (evaluator : Evaluator) (config : Config) (calls : List Call) :
    let served := (Session.new w evaluator config).serve calls
    let history := served.1 ++ served.2.events.reverse
    (∃ word ∈ EventKind.protocol.matches', history.map Event.kind <+: word) ∧
    served.2.phase = (history.getLast?.map Event.phase).getD .idle ∧
    ∀ (n : Nat) (e : Event), history[n]? = some e → e.NumberedAfter (history.take n) := by
  intro served history
  have hnew : Reported ([] ++ (Session.new w evaluator config).events.reverse) _ :=
    reported_new w evaluator config
  have h : Reported history served.2 := hnew.serve (consistent_new w evaluator config) calls
  exact ⟨Phase.exists_word h.words, h.phase, h.numbered⟩

def stroll : Program := ⟨"1", none, .empty, [.forward (.number 2), .turnLeft], 0, .empty, []⟩

/-- A pause after the first step, in which the timer of the run fires too late, and a second run. -/
def strollCalls : List Call :=
  [.pause, .load stroll, .start, .onTimer 1, .drain, .pause, .onTimer 2, .resume, .onTimer 3,
    .onTimer 4, .onTimer 5, .start, .stop, .start]

theorem stroll_reports :
    let served := (Session.new (World.new 3 1) Goal.empty .standard).serve strollCalls
    let history := served.1 ++ served.2.events.reverse
    history = [.started 2, .step 2 4 .forward, .paused 2, .resumed 2, .step 3 4 .forward,
        .step 5 5 .turnLeft, .finished true "level complete", .stopped, .started 2] ∧
      served.2.phase = .running ∧
      (∃ word ∈ EventKind.protocol.matches', history.map Event.kind <+: word) ∧
      (Event.step 5 5 .turnLeft).NumberedAfter (history.take 5) := by
  intro served history
  have hhistory : history = [.started 2, .step 2 4 .forward, .paused 2, .resumed 2, .step 3 4 .forward,
      .step 5 5 .turnLeft, .finished true "level complete", .stopped, .started 2] := by decide +kernel
  obtain ⟨hword, hphase, hnumbered⟩ := serve_reports (World.new 3 1) Goal.empty .standard strollCalls
  refine ⟨hhistory, ?_, hword, hnumbered 5 _ ?_⟩
  · exact hphase.trans (congrArg (fun events => (events.getLast?.map Event.phase).getD .idle) hhistory)
  · exact congrArg (fun events : List Event => events[5]?) hhistory

end Session

end BlockRobot
