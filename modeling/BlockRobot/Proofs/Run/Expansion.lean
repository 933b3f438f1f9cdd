import BlockRobot.Run.Progress

/-!
# What a statement expands to

Apart from the limits, what a statement expands to depends on the program, the world, the bindings
and the kind of the latest statement that acted: `Machine.expansion`. The limits only decide whether
the queue takes it, and `Machine.expand_cases` says all that `Machine.expand` can do.
-/

namespace BlockRobot

def RunError.isLimit : RunError → Bool
  | .stepLimit _ | .queueLimit _ | .rangeLimit _ _ _ => true
  | _ => false

/-- `children` go to the front of the queue, and `last` is what the machine remembers. `rounds` counts
the rounds of a counted loop. An expansion that is `strict` needs a queue within its limit even if it
adds nothing to it. -/
structure Expansion where
  children : List Instruction
  last : Option Kind
  rounds : Nat
  strict : Bool

namespace Expansion

def ofNodes (last : Option Kind) (env : Bindings) (ss : List Statement) : Expansion :=
  ⟨nodesIn env ss, last, 0, false⟩

def Fits (x : Expansion) (limits : Limits) (size : Nat) : Prop :=
  x.rounds ≤ limits.maxRange ∧
    (x.strict = true ∨ x.children ≠ [] → size + x.children.length ≤ limits.maxQueue)

end Expansion

namespace Machine

/-! ## Expanding without limits -/

def rangeExpansion (w : World) (env : Bindings) (last : Option Kind) (head : LoopHead)
    (body : List Statement) : Except Failure Expansion :=
  match head.first.value? w env, head.last.value? w env, head.step.value? w env with
  | some first, some final, some step =>
    if step == 0 then .error ⟨none, .zeroStep (head.counter?.getD "")⟩
    else
      let span : Span Float := ⟨first, final, step⟩
      let count := span.count.getD 0
      .ok ⟨rounds head.counter? span env body count, last, count, true⟩
  | _, _, _ => .ok (.ofNodes last env [])

def actionExpansion (w : World) (env : Bindings) (last : Option Kind) (action : Action)
    (count : Option Expr) : Except Failure Expansion :=
  if action.kind.isBoxAction && last == some action.kind then
    .error ⟨some action, .consecutiveBoxAction action.kind⟩
  else match repetitions w env count with
    | none => .ok (.ofNodes last env [])
    | some n =>
      match shortage? w action n with
      | some error => .error ⟨some action, error⟩
      | none =>
        .ok ⟨List.replicate n (.act action), if 0 < n then some action.kind else last, 0, true⟩

/-- What a statement expands to when nothing is limited. -/
def expansion (program : Program) (w : World) (env : Bindings) (last : Option Kind) (s : Statement) :
    Except Failure Expansion :=
  match s with
  | .ifElse c thenBody elseIfs elseBody =>
    .ok (.ofNodes last env (branch w env elseBody ((c, thenBody) :: elseIfs)))
  | .whileLoop c body =>
    if !c.holds w env then .ok (.ofNodes last env [])
    else if body.isEmpty then .error ⟨none, .emptyWhileBody⟩
    else .ok (.ofNodes last env (body ++ [.whileLoop c body]))
  | .repeatRange head body => rangeExpansion w env last head body
  | .call name =>
    match program.function? name with
    | some f => .ok (.ofNodes last env f.body)
    | none => .error ⟨none, .unknownFunction name⟩
  | s =>
    match action? s with
    | some (action, count) => actionExpansion w env last action count
    | none => .ok (.ofNodes last env [])

theorem shortage_eq {w : World} {a : Action} {n : Nat} {error : RunError}
    (h : shortage? w a n = some error) :
    ∃ colors, a = .collect colors ∧ w.here.matching colors < n ∧
      error = .insufficientItems (min n 4294967295) (w.here.matching colors) colors := by
  cases a with
  | collect colors =>
    simp only [shortage?] at h
    split at h
    · next hlt =>
      cases h
      exact ⟨colors, rfl, hlt, rfl⟩
    · cases h
  | _ => cases h

theorem shortage_eq_none_iff {w : World} {a : Action} {n : Nat} :
    shortage? w a n = none ↔ ∀ colors, a = .collect colors → n ≤ w.here.matching colors := by
  cases a with
  | collect colors =>
    simp only [shortage?]
    split
    · next hlt => simp [hlt]
    · next hle => simpa using hle
  | _ => simp [shortage?]

theorem action_eq_collect {s : Statement} {colors : List String} {count : Option Expr}
    (h : action? s = some (.collect colors, count)) :
    ∃ e, s = .collect e colors ∧ count = some e := by
  cases s <;> cases h
  exact ⟨_, rfl, rfl⟩

inductive Expands (program : Program) (w : World) (env : Bindings) (last : Option Kind) :
    Statement → Except Failure Expansion → Prop where
  | ifElse {c : Condition} {thenBody elseBody : List Statement}
      {elseIfs : List (Condition × List Statement)} :
      Expands program w env last (.ifElse c thenBody elseIfs elseBody)
        (.ok (.ofNodes last env (branch w env elseBody ((c, thenBody) :: elseIfs))))
  | whileDone {c : Condition} {body : List Statement} (fails : c.holds w env = false) :
      Expands program w env last (.whileLoop c body) (.ok (.ofNodes last env []))
  | whileEmpty {c : Condition} (holds : c.holds w env = true) :
      Expands program w env last (.whileLoop c []) (.error ⟨none, .emptyWhileBody⟩)
  | whileAgain {c : Condition} {body : List Statement} (holds : c.holds w env = true)
      (nonempty : body ≠ []) :
      Expands program w env last (.whileLoop c body)
        (.ok (.ofNodes last env (body ++ [.whileLoop c body])))
  | rangeSkipped {head : LoopHead} {body : List Statement}
      (missing : head.first.value? w env = none ∨ head.last.value? w env = none ∨
        head.step.value? w env = none) :
      Expands program w env last (.repeatRange head body) (.ok (.ofNodes last env []))
  | rangeStuck {head : LoopHead} {body : List Statement} {first final step : Float}
      (hfirst : head.first.value? w env = some first) (hfinal : head.last.value? w env = some final)
      (hstep : head.step.value? w env = some step) (zero : (step == 0) = true) :
      Expands program w env last (.repeatRange head body)
        (.error ⟨none, .zeroStep (head.counter?.getD "")⟩)
  | range {head : LoopHead} {body : List Statement} {first final step : Float}
      (hfirst : head.first.value? w env = some first) (hfinal : head.last.value? w env = some final)
      (hstep : head.step.value? w env = some step) (nonzero : (step == 0) = false) :
      Expands program w env last (.repeatRange head body)
        (.ok ⟨rounds head.counter? ⟨first, final, step⟩ env body
          ((⟨first, final, step⟩ : Span Float).count.getD 0), last,
          (⟨first, final, step⟩ : Span Float).count.getD 0, true⟩)
  | call {name : String} {f : Function} (defined : program.function? name = some f) :
      Expands program w env last (.call name) (.ok (.ofNodes last env f.body))
  | callUnknown {name : String} (undefined : program.function? name = none) :
      Expands program w env last (.call name) (.error ⟨none, .unknownFunction name⟩)
  | boxTwice {s : Statement} {a : Action} {count : Option Expr} (acts : action? s = some (a, count))
      (box : a.kind.isBoxAction = true) (again : last = some a.kind) :
      Expands program w env last s (.error ⟨some a, .consecutiveBoxAction a.kind⟩)
  | skipped {s : Statement} {a : Action} {count : Option Expr} (acts : action? s = some (a, count))
      (free : a.kind.isBoxAction = false ∨ last ≠ some a.kind)
      (missing : repetitions w env count = none) :
      Expands program w env last s (.ok (.ofNodes last env []))
  | short {s : Statement} {a : Action} {count : Option Expr} {n : Nat} {error : RunError}
      (acts : action? s = some (a, count)) (free : a.kind.isBoxAction = false ∨ last ≠ some a.kind)
      (counted : repetitions w env count = some n) (lacks : shortage? w a n = some error) :
      Expands program w env last s (.error ⟨some a, error⟩)
  | acts {s : Statement} {a : Action} {count : Option Expr} {n : Nat}
      (acts : action? s = some (a, count)) (free : a.kind.isBoxAction = false ∨ last ≠ some a.kind)
      (counted : repetitions w env count = some n) (enough : shortage? w a n = none) :
      Expands program w env last s
        (.ok ⟨List.replicate n (.act a), if 0 < n then some a.kind else last, 0, true⟩)

theorem range_expands (program : Program) (w : World) (env : Bindings) (last : Option Kind)
    (head : LoopHead) (body : List Statement) :
    Expands program w env last (.repeatRange head body) (rangeExpansion w env last head body) := by
  cases hf : head.first.value? w env with
  | none => simp only [rangeExpansion, hf]; exact .rangeSkipped (.inl hf)
  | some first =>
    cases hl : head.last.value? w env with
    | none => simp only [rangeExpansion, hf, hl]; exact .rangeSkipped (.inr (.inl hl))
    | some final =>
      cases hs : head.step.value? w env with
      | none => simp only [rangeExpansion, hf, hl, hs]; exact .rangeSkipped (.inr (.inr hs))
      | some step =>
        simp only [rangeExpansion, hf, hl, hs]
        cases hzero : step == 0 with
        | true => exact .rangeStuck hf hl hs hzero
        | false => exact .range hf hl hs hzero

theorem action_expands (program : Program) (w : World) (env : Bindings) (last : Option Kind)
    {s : Statement} (a : Action) (count : Option Expr) (hacts : action? s = some (a, count)) :
    Expands program w env last s (actionExpansion w env last a count) := by
  by_cases hbox : (a.kind.isBoxAction && last == some a.kind) = true
  · rw [actionExpansion, if_pos hbox]
    simp only [Bool.and_eq_true, beq_iff_eq] at hbox
    exact .boxTwice hacts hbox.1 hbox.2
  · have hfree : a.kind.isBoxAction = false ∨ last ≠ some a.kind := by
      simp only [Bool.and_eq_true, beq_iff_eq, not_and] at hbox
      cases hk : a.kind.isBoxAction with
      | false => exact .inl rfl
      | true => exact .inr (hbox hk)
    rw [actionExpansion, if_neg hbox]
    cases hn : repetitions w env count with
    | none => exact .skipped hacts hfree hn
    | some n =>
      cases hshort : shortage? w a n with
      | some error => simp only [hshort]; exact .short hacts hfree hn hshort
      | none => simp only [hshort]; exact .acts hacts hfree hn hshort

theorem expansion_expands (program : Program) (w : World) (env : Bindings) (last : Option Kind)
    (s : Statement) : Expands program w env last s (expansion program w env last s) := by
  cases s with
  | ifElse c thenBody elseIfs elseBody => exact .ifElse
  | whileLoop c body =>
    simp only [expansion]
    cases hc : c.holds w env with
    | false => exact .whileDone hc
    | true =>
      cases body with
      | nil => exact .whileEmpty hc
      | cons s rest => exact .whileAgain hc (by simp)
  | repeatRange head body => exact range_expands program w env last head body
  | call name =>
    simp only [expansion]
    cases hf : program.function? name with
    | none => exact .callUnknown hf
    | some f => exact .call hf
  | turnLeft => exact action_expands program w env last .turnLeft none rfl
  | turnRight => exact action_expands program w env last .turnRight none rfl
  | turnBack => exact action_expands program w env last .turnBack none rfl
  | forward count => exact action_expands program w env last .forward (some count) rfl
  | collect count colors => exact action_expands program w env last (.collect colors) (some count) rfl
  | putBox count => exact action_expands program w env last .putBox (some count) rfl
  | takeBox count => exact action_expands program w env last .takeBox (some count) rfl

theorem Expands.of_eq {program : Program} {w : World} {env : Bindings} {last : Option Kind}
    {s : Statement} {r : Except Failure Expansion} (h : expansion program w env last s = r) :
    Expands program w env last s r := by
  rw [← h]
  exact expansion_expands program w env last s

theorem expansion_of_action {program : Program} {w : World} {env : Bindings} {last : Option Kind}
    {s : Statement} {a : Action} {count : Option Expr} (h : action? s = some (a, count)) :
    expansion program w env last s = actionExpansion w env last a count := by
  cases s <;> cases h <;> rfl

theorem not_boxTwice {last : Option Kind} {a : Action}
    (h : a.kind.isBoxAction = false ∨ last ≠ some a.kind) :
    ¬ (a.kind.isBoxAction && last == some a.kind) = true := by
  rcases h with h | h
  · simp [h]
  · simp [h]

theorem Expands.eq {program : Program} {w : World} {env : Bindings} {last : Option Kind}
    {s : Statement} {r : Except Failure Expansion} (h : Expands program w env last s r) :
    expansion program w env last s = r := by
  cases h with
  | ifElse => rfl
  | whileDone fails => simp [expansion, fails]
  | whileEmpty holds => simp [expansion, holds]
  | whileAgain holds nonempty => simp [expansion, holds, nonempty]
  | rangeSkipped missing =>
    simp only [expansion, rangeExpansion]
    split
    · next hf hl hs => simp [hf, hl, hs] at missing
    · rfl
  | rangeStuck hfirst hfinal hstep zero =>
    simp only [expansion, rangeExpansion, hfirst, hfinal, hstep, zero, if_true]
  | range hfirst hfinal hstep nonzero =>
    simp only [expansion, rangeExpansion, hfirst, hfinal, hstep, nonzero]
    rfl
  | call defined => simp only [expansion, defined]
  | callUnknown undefined => simp only [expansion, undefined]
  | boxTwice acts box again =>
    rw [expansion_of_action acts, actionExpansion, if_pos (by simp [box, again])]
  | skipped acts free missing =>
    rw [expansion_of_action acts, actionExpansion, if_neg (not_boxTwice free), missing]
  | short acts free counted lacks =>
    rw [expansion_of_action acts, actionExpansion, if_neg (not_boxTwice free), counted]
    simp only [lacks]
  | acts acts free counted enough =>
    rw [expansion_of_action acts, actionExpansion, if_neg (not_boxTwice free), counted]
    simp only [enough]

def enqueue (m : Machine) (x : Expansion) : Machine :=
  { m with pending := m.pending.pushFront x.children, last := x.last }

theorem length_rounds (name : Option String) (span : Span Float) (env : Bindings)
    (body : List Statement) (count : Nat) :
    (rounds name span env body count).length = count * body.length := by
  induction count with
  | zero => simp [rounds]
  | succ n ih =>
    simp only [rounds, nodesIn, List.length_flatMap, List.length_map] at ih ⊢
    rw [List.range_succ, List.map_append, List.sum_append, ih]
    simp [Nat.succ_mul]

/-! ## What the limits add -/

/-- The ways in which expanding a statement can go: it fails by itself, the queue takes what it
expands to, or a limit forbids that. -/
inductive Expanded (m : Machine) : Except Failure Expansion → Except Failure Machine → Prop where
  | failed (f : Failure) : Expanded m (.error f) (.error f)
  | enqueued (x : Expansion) (fits : x.Fits m.limits m.pending.size) :
      Expanded m (.ok x) (.ok (m.enqueue x))
  | limited (x : Expansion) (e : RunError) (limit : e.isLimit = true)
      (unfit : ¬ x.Fits m.limits m.pending.size) : Expanded m (.ok x) (.error ⟨none, e⟩)

theorem ensureRoom_of_lt {m : Machine} {n : Nat} (h : m.limits.maxQueue < m.pending.size + n) :
    m.ensureRoom n = .error ⟨none, .queueLimit m.limits.maxQueue⟩ := if_pos h

theorem ensureRoom_of_le {m : Machine} {n : Nat} (h : m.pending.size + n ≤ m.limits.maxQueue) :
    m.ensureRoom n = .ok () := if_neg (Nat.not_lt.mpr h)

theorem expanded_splice (m : Machine) (children : List Instruction) :
    Expanded m (.ok ⟨children, m.last, 0, false⟩) (m.splice children) := by
  cases children with
  | nil =>
    have hm : m.enqueue ⟨[], m.last, 0, false⟩ = m := by simp [enqueue]
    have hs : m.splice [] = .ok (m.enqueue ⟨[], m.last, 0, false⟩) := by rw [hm]; rfl
    rw [hs]
    exact .enqueued _ ⟨Nat.zero_le _, by simp⟩
  | cons i rest =>
    rcases Nat.lt_or_ge m.limits.maxQueue (m.pending.size + (i :: rest).length) with hlt | hle
    · have hs : m.splice (i :: rest) = .error ⟨none, .queueLimit m.limits.maxQueue⟩ := by
        rw [splice, if_neg (by simp), ensureRoom_of_lt hlt]; rfl
      rw [hs]
      exact .limited _ _ rfl fun h => absurd (h.2 (.inr (by simp))) (Nat.not_le.mpr hlt)
    · have hs : m.splice (i :: rest) = .ok (m.enqueue ⟨i :: rest, m.last, 0, false⟩) := by
        rw [splice, if_neg (by simp), ensureRoom_of_le hle]; rfl
      rw [hs]
      exact .enqueued _ ⟨Nat.zero_le _, fun _ => hle⟩

/-- Here the room is asked for before the instructions are put in, so also for none at all. -/
theorem expanded_strict (m : Machine) (x : Expansion) (hstrict : x.strict = true)
    (hrounds : x.rounds ≤ m.limits.maxRange) :
    Expanded m (.ok x)
      (do m.ensureRoom x.children.length; { m with last := x.last }.splice x.children) := by
  rcases Nat.lt_or_ge m.limits.maxQueue (m.pending.size + x.children.length) with hlt | hle
  · rw [ensureRoom_of_lt hlt]
    exact .limited _ _ rfl fun h => absurd (h.2 (.inl hstrict)) (Nat.not_le.mpr hlt)
  · rw [ensureRoom_of_le hle]
    have hs : { m with last := x.last }.splice x.children = .ok (m.enqueue x) := by
      have h := expanded_splice { m with last := x.last } x.children
      generalize { m with last := x.last }.splice x.children = r at h
      cases h with
      | enqueued => rfl
      | limited _ _ _ unfit => exact absurd ⟨Nat.zero_le _, fun _ => hle⟩ unfit
    change Expanded m (.ok x) ({ m with last := x.last }.splice x.children)
    rw [hs]
    exact .enqueued _ ⟨hrounds, fun _ => hle⟩

theorem expanded_range (m : Machine) (w : World) (env : Bindings) (head : LoopHead)
    (body : List Statement) :
    Expanded m (rangeExpansion w env m.last head body) (m.expandRange w env head body) := by
  have hskip : Expanded m (.ok (.ofNodes m.last env [])) (.ok m) := expanded_splice m []
  cases hf : head.first.value? w env with
  | none => simp only [rangeExpansion, expandRange, hf]; exact hskip
  | some first =>
    cases hl : head.last.value? w env with
    | none => simp only [rangeExpansion, expandRange, hf, hl]; exact hskip
    | some final =>
      cases hs : head.step.value? w env with
      | none => simp only [rangeExpansion, expandRange, hf, hl, hs]; exact hskip
      | some step =>
        simp only [rangeExpansion, expandRange, hf, hl, hs]
        by_cases hzero : (step == 0) = true
        · rw [if_pos hzero, if_pos hzero]
          exact .failed _
        · rw [if_neg hzero, if_neg hzero]
          split
          · next hlt => exact .limited _ _ rfl fun h => absurd h.1 (Nat.not_le.mpr hlt)
          · next hle =>
            rw [← length_rounds head.counter? ⟨first, final, step⟩ env]
            exact expanded_strict m ⟨_, m.last, _, true⟩ rfl (Nat.not_lt.mp hle)

theorem expanded_action (m : Machine) (w : World) (env : Bindings) (action : Action)
    (count : Option Expr) :
    Expanded m (actionExpansion w env m.last action count) (m.expandAction w env action count) := by
  by_cases hbox : (action.kind.isBoxAction && m.last == some action.kind) = true
  · rw [actionExpansion, expandAction, if_pos hbox, if_pos hbox]
    exact .failed _
  · rw [actionExpansion, expandAction, if_neg hbox, if_neg hbox]
    cases repetitions w env count with
    | none => exact expanded_splice m []
    | some n =>
      cases hshort : shortage? w action n with
      | some error => simp only [hshort]; exact .failed _
      | none =>
        simp only [hshort]
        have h := expanded_strict m
          ⟨List.replicate n (.act action), if 0 < n then some action.kind else m.last, 0, true⟩ rfl
          (Nat.zero_le _)
        rw [List.length_replicate] at h
        cases n with
        | zero => exact h
        | succ n => exact h

theorem expand_cases (program : Program) (m : Machine) (w : World) (env : Bindings) (s : Statement) :
    Expanded m (expansion program w env m.last s) (m.expand program w env s) := by
  cases s with
  | ifElse c thenBody elseIfs elseBody => exact expanded_splice m _
  | whileLoop c body =>
    simp only [expansion, expand]
    cases c.holds w env with
    | false => exact expanded_splice m []
    | true =>
      cases body with
      | nil => exact .failed _
      | cons s rest => exact expanded_splice m _
  | repeatRange head body => exact expanded_range m w env head body
  | call name =>
    simp only [expansion, expand]
    cases program.function? name with
    | none => exact .failed _
    | some f => exact expanded_splice m _
  | turnLeft => exact expanded_action m w env .turnLeft none
  | turnRight => exact expanded_action m w env .turnRight none
  | turnBack => exact expanded_action m w env .turnBack none
  | forward count => exact expanded_action m w env .forward (some count)
  | collect count colors => exact expanded_action m w env (.collect colors) (some count)
  | putBox count => exact expanded_action m w env .putBox (some count)
  | takeBox count => exact expanded_action m w env .takeBox (some count)

variable {program : Program} {m m' : Machine} {w : World} {env : Bindings} {s : Statement}

theorem expand_enqueued {x : Expansion} (hx : expansion program w env m.last s = .ok x)
    (hfits : x.Fits m.limits m.pending.size) : m.expand program w env s = .ok (m.enqueue x) := by
  have h := expand_cases program m w env s
  rw [hx] at h
  generalize m.expand program w env s = r at h ⊢
  cases h with
  | enqueued => rfl
  | limited _ _ _ unfit => exact absurd hfits unfit

theorem expand_failed {f : Failure} (hx : expansion program w env m.last s = .error f) :
    m.expand program w env s = .error f := by
  have h := expand_cases program m w env s
  rw [hx] at h
  generalize m.expand program w env s = r at h ⊢
  cases h
  rfl

theorem expand_limited {x : Expansion} (hx : expansion program w env m.last s = .ok x)
    (hunfit : ¬ x.Fits m.limits m.pending.size) :
    ∃ e : RunError, e.isLimit = true ∧ m.expand program w env s = .error ⟨none, e⟩ := by
  have h := expand_cases program m w env s
  rw [hx] at h
  generalize m.expand program w env s = r at h ⊢
  cases h with
  | enqueued _ fits => exact absurd fits hunfit
  | limited _ e hlimit => exact ⟨e, hlimit, rfl⟩

end Machine

end BlockRobot
