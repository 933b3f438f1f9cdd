import BlockRobot.Proofs.Run.Steps

/-!
# The counters of a machine

`Machine.Counts` says how the counters and the length of the queue go on from one machine of a run to a later
one. The bound on the steps is all that ends a run: the loop of `advance` and the whole run end because each
instruction that is taken is counted (`Machine.exists_takes`, `Machine.exists_finishes`). Main statement:
`Machine.counters_bounded`.
-/

namespace BlockRobot

namespace Machine

variable {program : Program} {m m₁ m₂ : Machine} {w w₁ w₂ : World}

/-! ## From one machine to a later one -/

/-- What a run does to the counters of a machine and to the length of its queue while it does `n` actions. -/
structure Counts (m m₁ : Machine) (n : Nat) : Prop where
  limits : m₁.limits = m.limits
  cursor : m₁.cursor + m.steps = m.cursor + m₁.steps
  executed : m₁.executed = m.executed + n
  actions : m.steps + n ≤ m₁.steps
  within : m.steps ≤ m.limits.maxSteps → m₁.steps ≤ m.limits.maxSteps
  queue : m.queueLength ≤ m₁.queueLength
  pending : m₁.pending.size ≤ max m.pending.size m.limits.maxQueue

theorem Counts.refl (m : Machine) : Counts m m 0 where
  limits := rfl
  cursor := rfl
  executed := rfl
  actions := Nat.le_refl _
  within := id
  queue := Nat.le_refl _
  pending := Nat.le_max_left _ _

theorem Counts.trans {n k : Nat} (h : Counts m m₁ n) (h' : Counts m₁ m₂ k) : Counts m m₂ (n + k) where
  limits := h'.limits.trans h.limits
  cursor := by have := h.cursor; have := h'.cursor; omega
  executed := by rw [h'.executed, h.executed, Nat.add_assoc]
  actions := by have := h.actions; have := h'.actions; omega
  within hm := h.limits ▸ h'.within (h.limits ▸ h.within hm)
  queue := Nat.le_trans h.queue h'.queue
  pending := by
    have hfirst := h.pending
    have hsecond := h'.pending
    rw [h.limits] at hsecond
    omega

theorem size_of_pop {q rest : Queue Instruction} {i : Instruction} (h : q.pop? = some (i, rest)) :
    q.size = rest.size + 1 := by
  rw [q.size_eq, rest.size_eq, Queue.pop?_eq_some_iff.mp h, List.length_cons]

theorem size_pushFront_le {x : Expansion} {limits : Limits} {q : Queue Instruction}
    (h : x.Fits limits q.size) : (q.pushFront x.children).size ≤ max q.size limits.maxQueue := by
  cases hx : x.children with
  | nil =>
    rw [Queue.pushFront_nil]
    exact Nat.le_max_left _ _
  | cons i rest =>
    have hroom := h.2 (.inr (hx ▸ List.cons_ne_nil i rest))
    rw [hx] at hroom
    simp only [Queue.pushFront]
    omega

theorem Step.counts {a? : Option Action} (h : Step program m w a? m₁ w₁) :
    Counts m m₁ a?.toList.length := by
  cases h with
  | @act a rest w₁ front allowed =>
    have hsize := size_of_pop front
    refine ⟨rfl, ?cursor, rfl, Nat.le_refl _, fun _ => allowed, ?queue, ?pending⟩
    case cursor => exact Nat.add_right_comm m.cursor 1 m.steps
    case queue =>
      change m.cursor + m.pending.size ≤ m.cursor + 1 + rest.size
      omega
    case pending =>
      change rest.size ≤ max m.pending.size m.limits.maxQueue
      omega
  | @node s env rest x front allowed expands fits =>
    have hsize := size_of_pop front
    have hpushed := size_pushFront_le fits
    refine ⟨rfl, ?cursor, rfl, Nat.le_succ _, fun _ => allowed, ?queue, ?pending⟩
    case cursor => exact Nat.add_right_comm m.cursor 1 m.steps
    case queue =>
      change m.cursor + m.pending.size ≤ m.cursor + 1 + (x.children.length + rest.size)
      omega
    case pending =>
      change (rest.pushFront x.children).size ≤ max m.pending.size m.limits.maxQueue
      omega

theorem Steps.counts {as : List Action} (h : Steps program m w as m₁ w₁) : Counts m m₁ as.length := by
  induction h with
  | refl m => exact .refl m
  | step first _ ih =>
    rw [List.length_append]
    exact first.counts.trans ih

theorem counts_of_acted {a : Action} (h : m.advance program w = (.acted a, m₁, w₁)) : Counts m m₁ 1 := by
  rcases advance_cases program m w with ⟨a', m', w', hadv, hsteps, -⟩ | ⟨f?, m', m'', hadv, -, -⟩
  · cases h.symm.trans hadv
    exact hsteps.counts
  · cases f? <;> cases h.symm.trans hadv

theorem counts_of_exhausted (h : m.advance program w = (.exhausted, m₁, w₁)) : Counts m m₁ 0 := by
  rcases advance_cases program m w with ⟨a', m', w', hadv, -, -⟩ | ⟨f?, m', m'', hadv, hsteps, hhalt⟩
  · cases h.symm.trans hadv
  · cases hhalt with
    | exhausted =>
      cases h.symm.trans hadv
      exact hsteps.counts
    | _ => cases h.symm.trans hadv

/-- Calls of `advance` that do not fail, one after another and each in whatever world, with the actions that
they do. -/
inductive Reaches (program : Program) : Machine → List Action → Machine → Prop where
  | refl (m : Machine) : Reaches program m [] m
  | acted {m m₁ m₂ : Machine} {w w₁ : World} {a : Action} {as : List Action}
      (call : m.advance program w = (.acted a, m₁, w₁)) (rest : Reaches program m₁ as m₂) :
      Reaches program m (a :: as) m₂
  | exhausted {m m₁ m₂ : Machine} {w w₁ : World} {as : List Action}
      (call : m.advance program w = (.exhausted, m₁, w₁)) (rest : Reaches program m₁ as m₂) :
      Reaches program m as m₂

theorem Reaches.counts {as : List Action} (h : Reaches program m as m₁) : Counts m m₁ as.length := by
  induction h with
  | refl m => exact .refl m
  | acted call _ ih =>
    rw [List.length_cons, Nat.add_comm]
    exact (counts_of_acted call).trans ih
  | exhausted call _ ih =>
    rw [← Nat.zero_add (List.length _)]
    exact (counts_of_exhausted call).trans ih

/-! ## Expansions -/

theorem size_le_of_expand {env : Bindings} {s : Statement} (h : m.expand program w env s = .ok m₁)
    (hlt : m.pending.size < m₁.pending.size) : m₁.pending.size ≤ m.limits.maxQueue := by
  have hcases := expand_cases program m w env s
  rw [h] at hcases
  generalize expansion program w env m.last s = r at hcases
  cases hcases with
  | enqueued x fits =>
    have hsize := size_pushFront_le fits
    change m.pending.size < (m.pending.pushFront x.children).size at hlt
    change (m.pending.pushFront x.children).size ≤ m.limits.maxQueue
    omega

/-! ## The loop of `advance` -/

/-- Takes instructions off the queue until one ends the call, `n` of them. Nothing bounds this loop
beforehand: it only compares the steps with their limit, each time it takes an instruction. -/
inductive Takes (program : Program) : Machine → World → Nat → Stop → Machine → World → Prop where
  | exhausted {m : Machine} {w : World} (front : m.pending.pop? = none) :
      Takes program m w 0 .exhausted m w
  | overrun {m : Machine} {w : World} {i : Instruction} {rest : Queue Instruction}
      (front : m.pending.pop? = some (i, rest)) (beyond : m.limits.maxSteps < (m.taken rest).steps) :
      Takes program m w 1 (.failed ⟨none, .stepLimit m.limits.maxSteps⟩) (m.taken rest) w
  | ends {m m₁ : Machine} {w w₁ : World} {i : Instruction} {rest : Queue Instruction} {stop : Stop}
      (front : m.pending.pop? = some (i, rest)) (allowed : (m.taken rest).steps ≤ m.limits.maxSteps)
      (performs : (m.taken rest).perform program w i = (some stop, m₁, w₁)) :
      Takes program m w 1 stop m₁ w₁
  | again {m m₁ m₂ : Machine} {w w₁ w₂ : World} {i : Instruction} {rest : Queue Instruction} {n : Nat}
      {stop : Stop} (front : m.pending.pop? = some (i, rest))
      (allowed : (m.taken rest).steps ≤ m.limits.maxSteps)
      (performs : (m.taken rest).perform program w i = (none, m₁, w₁))
      (more : Takes program m₁ w₁ n stop m₂ w₂) : Takes program m w (n + 1) stop m₂ w₂

theorem exists_takes (program : Program) {m : Machine} (w : World) (hm : m.steps ≤ m.limits.maxSteps) :
    ∃ n stop m₁ w₁, m.advance program w = (stop, m₁, w₁) ∧ Takes program m w n stop m₁ w₁ ∧
      m₁.steps = m.steps + n ∧ m.steps + n ≤ m.limits.maxSteps + 1 := by
  obtain ⟨left, hleft⟩ : ∃ left, m.limits.maxSteps - m.steps = left := ⟨_, rfl⟩
  induction left using Nat.strongRecOn generalizing m w with
  | ind left ih =>
    cases hp : m.pending.pop? with
    | none => exact ⟨0, _, m, w, advance_halt (.exhausted hp), .exhausted hp, rfl, by omega⟩
    | some front =>
      obtain ⟨i, rest⟩ := front
      rcases Nat.lt_or_ge m.steps m.limits.maxSteps with hlt | hge
      · have hadv : m.advance program w = _ := advance_eq_perform hp hlt
        generalize hr : (m.taken rest).perform program w i = r at hadv
        obtain ⟨stop?, m₁, w₁⟩ := r
        obtain ⟨hlimits, hsteps⟩ := perform_limits hr
        change m₁.limits = m.limits at hlimits
        change m₁.steps = m.steps + 1 at hsteps
        cases stop? with
        | some stop => exact ⟨1, stop, m₁, w₁, hadv, .ends hp hlt hr, hsteps, by omega⟩
        | none =>
          obtain ⟨n, stop, m₂, w₂, hrest, htakes, hcount, hle⟩ :=
            ih (m₁.limits.maxSteps - m₁.steps) (by rw [hlimits]; omega) w₁ (by rw [hlimits]; omega) rfl
          rw [hlimits] at hle
          exact ⟨n + 1, stop, m₂, w₂, hadv.trans hrest, .again hp hlt hr htakes, by omega, by omega⟩
      · exact ⟨1, _, _, w, advance_halt (.stepLimit hp hge), .overrun hp (Nat.lt_succ_of_le hge), rfl,
          by omega⟩

/-! ## Whole runs -/

/-- Calls of `advance` until one of them ends the run, with the number of instructions that they take, the
actions that they do, and the failure if there is one. -/
inductive Finishes (program : Program) :
    Machine → World → Nat → List Action → Option Failure → Machine → World → Prop where
  | ends {m m₁ : Machine} {w w₁ : World} {n : Nat} {f? : Option Failure}
      (call : Takes program m w n (stopOf f?) m₁ w₁) : Finishes program m w n [] f? m₁ w₁
  | acted {m m₁ m₂ : Machine} {w w₁ w₂ : World} {n k : Nat} {a : Action} {as : List Action}
      {f? : Option Failure} (call : Takes program m w n (.acted a) m₁ w₁)
      (rest : Finishes program m₁ w₁ k as f? m₂ w₂) : Finishes program m w (n + k) (a :: as) f? m₂ w₂

theorem exists_finishes (program : Program) {m : Machine} (w : World) (hm : m.steps ≤ m.limits.maxSteps) :
    ∃ n, Finishes program m w n (m.run program w).actions (m.run program w).failure
      (m.run program w).machine (m.run program w).world ∧ m.steps + n ≤ m.limits.maxSteps + 1 := by
  fun_induction run program m w with
  | case1 m w a m₁ w₁ hadv rest ih =>
    obtain ⟨n, stop, m', w', hadv', htakes, hcount, -⟩ := exists_takes program w hm
    cases hadv.symm.trans hadv'
    obtain ⟨hlimits, -, hle⟩ := advance_acted hadv
    obtain ⟨k, hfinishes, hbound⟩ := ih (by rw [hlimits]; exact hle)
    rw [hlimits] at hbound
    exact ⟨n + k, .acted htakes hfinishes, by omega⟩
  | case2 m w m₁ w₁ hadv =>
    obtain ⟨n, stop, m', w', hadv', htakes, -, hbound⟩ := exists_takes program w hm
    cases hadv.symm.trans hadv'
    have hcall : Takes program m w n (stopOf none) m₁ w₁ := htakes
    exact ⟨n, .ends hcall, hbound⟩
  | case3 m w f m₁ w₁ hadv =>
    obtain ⟨n, stop, m', w', hadv', htakes, -, hbound⟩ := exists_takes program w hm
    cases hadv.symm.trans hadv'
    have hcall : Takes program m w n (stopOf (some f)) m₁ w₁ := htakes
    exact ⟨n, .ends hcall, hbound⟩

theorem Halt.allowed_of_action {f : Failure} {a : Action} (h : Halt program m w (some f) m₁)
    (ha : f.action = some a) : m.steps < m.limits.maxSteps := by
  cases h with
  | stepLimit | limited => cases ha
  | refused _ allowed | failed _ allowed => exact allowed

end Machine

open Machine

theorem Simulation.length_actions_le (evaluator : Evaluator) (limits : Limits) (program : Program)
    (w : World) : (run evaluator limits program w).1.actions.length ≤ limits.maxSteps := by
  have hrun : (run evaluator limits program w).1 =
      ofTrace evaluator ((Machine.new program limits).run program w) := rfl
  obtain ⟨m₁, hsteps, hhalt⟩ := exists_steps_halt program (.new program limits) w
  have hcounts := hsteps.counts
  have hactions : ((Machine.new program limits).run program w).actions.length ≤ m₁.steps :=
    Nat.zero_add (List.length _) ▸ hcounts.actions
  have hwithin : m₁.steps ≤ limits.maxSteps := hcounts.within (Nat.zero_le _)
  have hlimits : m₁.limits = limits := hcounts.limits
  rw [hrun, ofTrace]
  cases hf : ((Machine.new program limits).run program w).failure with
  | none => exact Nat.le_trans hactions hwithin
  | some f =>
    simp only [List.length_append]
    rw [hf] at hhalt
    cases ha : f.action with
    | none => exact Nat.le_trans hactions hwithin
    | some a =>
      have hlt := hhalt.allowed_of_action ha
      rw [hlimits] at hlt
      rw [Option.toList_some, List.length_singleton]
      omega

namespace Machine

/-- However often a program is advanced without failing, and in whatever worlds, its machine counts what it
does, and its limits bound the steps and the queue. So a call comes to an end, and so does a run. -/
theorem counters_bounded {program : Program} {limits : Limits} {as : List Action} {m : Machine}
    (h : Reaches program (.new program limits) as m) :
    (m.cursor = m.steps ∧ m.steps ≤ limits.maxSteps) ∧
    (m.executed = as.length ∧ m.executed ≤ m.steps) ∧
    (m.queueLength = m.cursor + m.pending.size ∧
      ∀ bs m', Reaches program m bs m' → m.queueLength ≤ m'.queueLength) ∧
    (m.pending.size ≤ max program.actions.length limits.maxQueue ∧
      ∀ (m₁ m₂ : Machine) (w : World) (env : Bindings) (s : Statement), m₁.limits = limits →
        m₁.expand program w env s = .ok m₂ → m₁.pending.size < m₂.pending.size →
        m₂.pending.size ≤ limits.maxQueue) ∧
    (∀ w, ∃ n stop m' w', m.advance program w = (stop, m', w') ∧ Takes program m w n stop m' w' ∧
      m'.steps = m.steps + n ∧ m.steps + n ≤ limits.maxSteps + 1) ∧
    ∀ w evaluator, let t := (Machine.new program limits).run program w
      (∃ n, Finishes program (.new program limits) w n t.actions t.failure t.machine t.world ∧
        n ≤ limits.maxSteps + 1) ∧
      (Simulation.run evaluator limits program w).1.actions.length ≤ limits.maxSteps := by
  have hcounts := h.counts
  have hlimits : m.limits = limits := hcounts.limits
  have hsteps : m.steps ≤ limits.maxSteps := hcounts.within (Nat.zero_le _)
  have hcursor : m.cursor = m.steps := by
    have hsum : m.cursor + 0 = 0 + m.steps := hcounts.cursor
    omega
  have hexecuted : m.executed = as.length := hcounts.executed.trans (Nat.zero_add _)
  have hactions : as.length ≤ m.steps := Nat.zero_add as.length ▸ hcounts.actions
  have hpending : m.pending.size ≤ max program.actions.length limits.maxQueue := by
    have hsize : (Machine.new program limits).pending.size = program.actions.length := List.length_map _
    exact hsize ▸ hcounts.pending
  refine ⟨⟨hcursor, hsteps⟩, ⟨hexecuted, hexecuted ▸ hactions⟩,
    ⟨rfl, fun bs m' hlater => hlater.counts.queue⟩, ⟨hpending, ?expansions⟩, fun w => ?call,
    fun w evaluator => ⟨?run, Simulation.length_actions_le evaluator limits program w⟩⟩
  case expansions =>
    rintro m₁ m₂ w env s rfl hexpand hlt
    exact size_le_of_expand hexpand hlt
  case call =>
    have hcall := exists_takes program w (hlimits ▸ hsteps : m.steps ≤ m.limits.maxSteps)
    rwa [hlimits] at hcall
  case run =>
    obtain ⟨n, hfinishes, hbound⟩ := exists_finishes program (m := new program limits) w (Nat.zero_le _)
    exact ⟨n, hfinishes, Nat.zero_add n ▸ hbound⟩

/-- Turns without end, after a conditional that adds nothing to the queue. -/
def carousel : Program :=
  ⟨"1", none, .empty, [.ifElse (.and []) [] [] [], .whileLoop (.and []) [.turnLeft]], 0, .empty, []⟩

theorem counters_carousel :
    ∃ m, Reaches carousel (.new carousel ⟨8, 2, 5⟩) [.turnLeft, .turnLeft] m ∧
      m.cursor = 7 ∧ m.executed = 2 ∧ m.pending.size = 1 ∧
      (m.cursor = m.steps ∧ m.steps ≤ 8) ∧
      (∀ bs m', Reaches carousel m bs m' → m.queueLength ≤ m'.queueLength) ∧
      (∃ n stop m' w', m.advance carousel (World.new 1 1) = (stop, m', w') ∧
        Takes carousel m (World.new 1 1) n stop m' w' ∧ m'.steps = m.steps + n ∧ m.steps + n ≤ 9) ∧
      (Simulation.run Goal.empty ⟨8, 2, 5⟩ carousel (World.new 1 1)).1.actions.length ≤ 8 := by
  obtain ⟨m, hreaches, hcursor, hexecuted, hsize⟩ :
      ∃ m, Reaches carousel (.new carousel ⟨8, 2, 5⟩) [.turnLeft, .turnLeft] m ∧
        m.cursor = 7 ∧ m.executed = 2 ∧ m.pending.size = 1 :=
    ⟨_, .acted (w := World.new 1 1) rfl (.acted (w := World.new 1 1) rfl (.refl _)), rfl, rfl, rfl⟩
  obtain ⟨hsteps, -, hqueue, -, hcall, hrun⟩ := counters_bounded hreaches
  exact ⟨m, hreaches, hcursor, hexecuted, hsize, hsteps, hqueue.2, hcall (World.new 1 1),
    (hrun (World.new 1 1) Goal.empty).2⟩

end Machine

end BlockRobot
