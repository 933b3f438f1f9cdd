import BlockRobot.Proofs.Program.Normal
import BlockRobot.Proofs.Run.Activations
import BlockRobot.Proofs.Run.Replay
import BlockRobot.Proofs.World.Picking

/-!
# Collecting is all or nothing

Whether there are enough items is checked once, when a statement is expanded, and its actions are done
later, one at a time. Nothing comes between them, so the items that are left cover the actions that are left
(`Covered`), and no action that collects is refused. This takes colors that are listed once, as in all
programs that load.
-/

namespace BlockRobot

/-- The actions left to do are alike, and if they collect, there are items for all of them. -/
def Covered (w : World) (todo : List Action) : Prop :=
  ∃ a n, todo = List.replicate n a ∧
    ∀ colors, a = .collect colors → colors.Nodup ∧ n ≤ w.here.matching colors

namespace Covered

variable {w w₁ : World} {a : Action} {colors : List String} {todo : List Action}

theorem nil (w : World) : Covered w [] := ⟨.forward, 0, rfl, fun _ h => by cases h⟩

theorem exists_apply (h : Covered w (.collect colors :: todo)) :
    ∃ w₁, Action.apply (.collect colors) w = .ok w₁ ∧ Covered w₁ todo := by
  obtain ⟨a, n, htodo, henough⟩ := h
  cases n with
  | zero => cases htodo
  | succ n =>
    obtain ⟨rfl, rfl⟩ := List.cons.inj htodo
    obtain ⟨hcolors, hn⟩ := henough colors rfl
    rw [← World.length_pickOrder] at hn
    cases horder : w.pickOrder colors with
    | nil =>
      rw [horder] at hn
      exact absurd hn (Nat.not_succ_le_zero n)
    | cons j rest =>
      obtain ⟨happly, hrest⟩ := World.apply_collect hcolors horder
      refine ⟨w.takeAt j, happly, .collect colors, n, rfl, fun _ h => ?_⟩
      cases h
      rw [← World.length_pickOrder, hrest]
      rw [horder] at hn
      exact ⟨hcolors, Nat.le_of_succ_le_succ hn⟩

theorem act (h : Covered w (a :: todo)) (happly : a.apply w = .ok w₁) : Covered w₁ todo := by
  by_cases ha : ∃ colors, a = .collect colors
  · obtain ⟨colors, rfl⟩ := ha
    obtain ⟨w₂, hw₂, hcovered⟩ := h.exists_apply
    rw [happly] at hw₂
    cases hw₂
    exact hcovered
  · obtain ⟨b, n, htodo, -⟩ := h
    cases n with
    | zero => cases htodo
    | succ n =>
      obtain ⟨rfl, rfl⟩ := List.cons.inj htodo
      exact ⟨a, n, rfl, fun colors h => absurd ⟨colors, h⟩ ha⟩

end Covered

namespace Machine

variable {p : Program} {m m₁ : Machine} {w w₁ : World} {colors : List String}

/-! ## No action that collects is refused -/

/-- Colors are listed once in all statements in the queue, and the actions in front of it are covered. -/
structure Supplied (p : Program) (m : Machine) (w : World) : Prop where
  queued : m.Queued (· ∈ p.nodes)
  covered : ∃ todo, m.Ahead todo ∧ Covered w todo

theorem Supplied.step {a? : Option Action} (hp : p.Normal) (h : Supplied p m w)
    (hstep : Step p m w a? m₁ w₁) : Supplied p m₁ w₁ := by
  refine ⟨hstep.queued (hereditary_nodes p) h.queued, ?_⟩
  obtain ⟨todo, hm, hcovered⟩ := h.covered
  obtain ⟨later, hm₁, hadvances⟩ := hstep.advances hm
  refine ⟨later, hm₁, ?_⟩
  cases hadvances with
  | acted => exact hcovered.act hstep.applied
  | expanded => exact .nil w₁
  | @activated x s env rest count? front acts _ _ _ enough =>
    obtain rfl := hstep.world_eq
    refine ⟨x.action, x.count, rfl, fun colors hx => ?_⟩
    rw [hx] at acts
    obtain ⟨count, rfl, -⟩ := action_eq_collect acts
    have hnormal := hp.statements _ (h.queued.front front)
    exact ⟨hnormal.2.1, shortage_eq_none_iff.mp enough colors hx⟩

theorem supplied_new (p : Program) (limits : Limits) (w : World) : Supplied p (.new p limits) w :=
  ⟨queued_new fun _ hs => Program.mem_nodes_of_body List.mem_cons_self hs,
    [], ahead_new p limits, .nil w⟩

theorem collect_not_refused (hp : p.Normal) (limits : Limits) (w : World) (colors : List String)
    (r : Refusal) :
    ((Machine.new p limits).run p w).failure ≠ some ⟨some (.collect colors), .refused r⟩ := by
  intro hfailure
  obtain ⟨m₁, hsteps, hhalt⟩ := exists_steps_halt p (.new p limits) w
  have hsupplied : Supplied p m₁ _ :=
    hsteps.invariant (I := Supplied p) (fun hstep h => h.step hp hstep) (supplied_new p limits w)
  rw [hfailure] at hhalt
  generalize ((Machine.new p limits).run p w).machine = m₂ at hhalt
  cases hhalt with
  | refused front _ applied =>
    obtain ⟨todo, hm₁, hcovered⟩ := hsupplied.covered
    obtain ⟨later, rfl, -⟩ := hm₁.of_act front
    obtain ⟨w₁, hw₁, -⟩ := hcovered.exists_apply
    rw [applied] at hw₁
    cases hw₁
  | failed _ _ expands =>
    cases Expands.of_eq expands with
    | short _ _ _ lacks =>
      obtain ⟨_, _, _, herror⟩ := shortage_eq lacks
      cases herror

/-! ## What a statement collects -/

theorem pop?_replicate {i : Instruction} {k n : Nat} {rest : Queue Instruction}
    (h : m.pending = rest.pushFront (List.replicate (n - k) i)) (hk : k < n) :
    m.pending.pop? = some (i, rest.pushFront (List.replicate (n - (k + 1)) i)) := by
  have hleft : n - k = n - (k + 1) + 1 := by omega
  rw [Queue.pop?_eq_some_iff, h, hleft]
  rfl

/-- Actions in front of the queue that collect take items in their order, as long as there are steps. -/
theorem steps_collect (hcolors : colors.Nodup) {n : Nat} {rest : Queue Instruction}
    (hpending : m.pending = rest.pushFront (List.replicate n (.act (.collect colors))))
    (hn : n ≤ (w.pickOrder colors).length) {k : Nat} (hk : k ≤ n)
    (hsteps : m.steps + k ≤ m.limits.maxSteps) :
    ∃ m₁, Steps p m w (List.replicate k (.collect colors)) m₁ (w.pick ((w.pickOrder colors).take k)) ∧
      m₁.pending = rest.pushFront (List.replicate (n - k) (.act (.collect colors))) ∧
      m₁.steps = m.steps + k := by
  induction k with
  | zero => exact ⟨m, .refl m w, hpending, rfl⟩
  | succ k ih =>
    obtain ⟨m₁, hm₁, hpending₁, hsteps₁⟩ := ih (Nat.le_of_succ_le hk) (Nat.le_of_succ_le hsteps)
    have hfront := pop?_replicate hpending₁ hk
    have hallowed : m₁.steps < m₁.limits.maxSteps := by
      rw [hm₁.limits_eq, hsteps₁]
      exact hsteps
    have happly := World.apply_collect_pick hcolors (Nat.lt_of_lt_of_le hk hn)
    have hlast := hm₁.trans (.step (.act hfront hallowed happly) (.refl _ _))
    rw [List.append_nil, Option.toList_some, ← List.replicate_succ'] at hlast
    exact ⟨_, hlast, rfl, congrArg (· + 1) hsteps₁⟩

theorem replay_collect (hcolors : colors.Nodup) {n : Nat} (hn : n ≤ (w.pickOrder colors).length) :
    Action.replay (List.replicate n (.collect colors)) w =
      .ok (w.pick ((w.pickOrder colors).take n)) := by
  induction n with
  | zero => rfl
  | succ n ih =>
    have hbefore := ih (Nat.le_of_succ_le hn)
    rw [Action.replay] at hbefore ⊢
    rw [List.replicate_succ', List.foldlM_append, hbefore]
    simp only [List.foldlM_cons, List.foldlM_nil]
    change Except.bind (Action.apply _ _) _ = _
    rw [World.apply_collect_pick hcolors hn]
    rfl

variable {env : Bindings} {count : Expr} {n : Nat} {rest : Queue Instruction}

theorem halt_short (hfront : m.pending.pop? = some (.node (.collect count colors) env, rest))
    (hallowed : m.steps < m.limits.maxSteps) (hn : repetitions w env (some count) = some n)
    (hshort : w.here.matching colors < n) :
    Halt p m w (some ⟨some (.collect colors),
      .insufficientItems (min n 4294967295) (w.here.matching colors) colors⟩)
      (m.entered rest (.collect count colors)) := by
  refine .failed hfront hallowed (Expands.short rfl (.inl rfl) hn ?_).eq
  simp only [shortage?, hshort, if_true]

theorem collects_or_limited (hcolors : colors.Nodup)
    (hfront : m.pending.pop? = some (.node (.collect count colors) env, rest))
    (hallowed : m.steps < m.limits.maxSteps) (hn : repetitions w env (some count) = some n)
    (henough : n ≤ (w.pickOrder colors).length) :
    (∃ m₁, Steps p m w (List.replicate n (.collect colors)) m₁
        (w.pick ((w.pickOrder colors).take n)) ∧ m₁.pending = rest) ∨
    ∃ k m₁ m₂ e, k ≤ n ∧ (e = .stepLimit m.limits.maxSteps ∨ e = .queueLimit m.limits.maxQueue) ∧
      Steps p m w (List.replicate k (.collect colors)) m₁ (w.pick ((w.pickOrder colors).take k)) ∧
      Halt p m₁ (w.pick ((w.pickOrder colors).take k)) (some ⟨none, e⟩) m₂ := by
  have hshortage : shortage? w (.collect colors) n = none :=
    shortage_eq_none_iff.mpr fun _ h => by
      cases h
      rwa [← World.length_pickOrder]
  have hexpands : Expands p w env m.last (.collect count colors) _ :=
    .acts rfl (.inl rfl) hn hshortage
  rcases Nat.lt_or_ge m.limits.maxQueue (rest.size + n) with hfull | hroom
  · have hstops : (m.entered rest (.collect count colors)).expand p w env (.collect count colors) =
        .error ⟨none, .queueLimit m.limits.maxQueue⟩ := by
      have hroom := ensureRoom_of_lt (m := m.entered rest (.collect count colors)) hfull
      simp only [expand, action?, expandAction, hn, hshortage, hroom]
      rfl
    refine .inr ⟨0, m, _, _, Nat.zero_le n, .inr rfl, .refl m w,
      .limited hfront hallowed hexpands.eq (fun hfits => ?_) hstops rfl⟩
    have hle := hfits.2 (.inl rfl)
    rw [List.length_replicate] at hle
    exact absurd hle (Nat.not_le.mpr hfull)
  · obtain ⟨m₀, hstep, hpending₀, hsteps₀, hlimits₀⟩ : ∃ m₀, Step p m w none m₀ w ∧
        m₀.pending = rest.pushFront (List.replicate n (.act (.collect colors))) ∧
        m₀.steps = m.steps + 1 ∧ m₀.limits = m.limits :=
      ⟨_, .node hfront hallowed hexpands.eq
        ⟨Nat.zero_le _, fun _ => by rwa [List.length_replicate]⟩, rfl, rfl, rfl⟩
    by_cases hlong : m.steps + 1 + n ≤ m.limits.maxSteps
    · obtain ⟨m₁, hm₁, hpending, -⟩ := steps_collect (p := p) hcolors hpending₀ henough (Nat.le_refl n)
        (by rwa [hsteps₀, hlimits₀])
      refine .inl ⟨m₁, .step hstep hm₁, ?_⟩
      rw [hpending, Nat.sub_self, List.replicate_zero, Queue.pushFront_nil]
    · -- The steps run out before the actions do.
      obtain ⟨k, hk⟩ : ∃ k, m.steps + 1 + k = m.limits.maxSteps := Nat.le.dest hallowed
      obtain ⟨m₁, hm₁, hpending, hsteps⟩ := steps_collect (p := p) hcolors hpending₀ henough
        (show k ≤ n by omega) (Nat.le_of_eq (by rw [hsteps₀, hlimits₀, hk]))
      have hlimits : m₁.limits = m.limits := hm₁.limits_eq.trans hlimits₀
      refine .inr ⟨k, m₁, _, _, by omega, .inl (by rw [hlimits]), .step hstep hm₁,
        .stepLimit (pop?_replicate hpending (by omega)) (Nat.le_of_eq ?_)⟩
      rw [hlimits, hsteps, hsteps₀, hk]

end Machine

open Machine

/-- In runs of a program that loads, no action that collects is refused. A statement that asks for more
items than there are takes none. Any other one takes the first of them in their order, one action after the
other, and changes nothing else in the world; only a limit stops it before it is done. -/
theorem Program.load_collects {source : String} {p : Program} (h : Program.load source = .ok p)
    (limits : Limits) (w : World) :
    let trace := (Machine.new p limits).run p w
    (∀ colors r, trace.failure ≠ some ⟨some (.collect colors), .refused r⟩) ∧
    ∀ as m₁ w₁ count colors env rest n, Steps p (.new p limits) w as m₁ w₁ →
      m₁.pending.pop? = some (.node (.collect count colors) env, rest) →
      m₁.steps < limits.maxSteps → repetitions w₁ env (some count) = some n →
      let order := w₁.pickOrder colors
      -- The order lists the items that can be collected, each of them once.
      (order.Nodup ∧ order.length = w₁.here.matching colors ∧
        ∀ j, j ∈ order ↔ ∃ i, w₁.items[j]? = some i ∧ i.available = true ∧
          i.position = w₁.robot.position ∧ (colors = [] ∨ i.color ∈ colors)) ∧
      (order.length < n →
        trace = ⟨as, some ⟨some (.collect colors),
          .insufficientItems (min n 4294967295) order.length colors⟩,
          m₁.entered rest (.collect count colors), w₁⟩) ∧
      (n ≤ order.length →
        (∀ k ≤ n, Action.replay (List.replicate k (.collect colors)) w₁ = .ok (w₁.pick (order.take k))) ∧
        (∀ k j, (w₁.pick (order.take k)).items[j]? =
          w₁.items[j]?.map fun i => if j ∈ order.take k then { i with available := false } else i) ∧
        (∀ k, ∃ items collected, w₁.pick (order.take k) =
          { w₁ with items := items, inventory := { w₁.inventory with collected := collected } }) ∧
        ((∃ m₂, Steps p m₁ w₁ (List.replicate n (.collect colors)) m₂ (w₁.pick (order.take n)) ∧
            m₂.pending = rest) ∨
          ∃ k m₂ e, k ≤ n ∧ (e = .stepLimit limits.maxSteps ∨ e = .queueLimit limits.maxQueue) ∧
            trace = ⟨as ++ List.replicate k (.collect colors), some ⟨none, e⟩, m₂,
              w₁.pick (order.take k)⟩)) := by
  have hp := normal_of_load h
  intro trace
  refine ⟨collect_not_refused hp limits w, ?_⟩
  intro as m₁ w₁ count colors env rest n hsteps hfront hallowed hn order
  have hlimits : m₁.limits = limits := hsteps.limits_eq
  rw [← hlimits] at hallowed
  have hqueued : m₁.Queued (· ∈ p.nodes) :=
    hsteps.queued (hereditary_nodes p)
      (queued_new fun s hs => Program.mem_nodes_of_body List.mem_cons_self hs)
  have hcolors : colors.Nodup := (hp.statements _ (hqueued.front hfront)).2.1
  have hlength : order.length = w₁.here.matching colors := World.length_pickOrder w₁ colors
  refine ⟨⟨World.nodup_pickOrder w₁ hcolors, hlength, fun j => World.mem_pickOrder⟩, ?_, ?_⟩
  · intro hshort
    rw [hlength] at hshort ⊢
    exact run_eq_of_halt hsteps (halt_short hfront hallowed hn hshort)
  · intro henough
    refine ⟨fun k hk => replay_collect hcolors (Nat.le_trans hk henough),
      fun k j => World.getElem?_pick w₁ _ j, fun k => World.pick_frame w₁ _, ?_⟩
    rcases collects_or_limited (p := p) hcolors hfront hallowed hn henough with
      hdone | ⟨k, m₂, m₃, e, hk, he, hsteps₂, hhalt⟩
    · exact .inl hdone
    · rw [hlimits] at he
      exact .inr ⟨k, m₃, e, hk, he, run_eq_of_halt (hsteps.trans hsteps₂) hhalt⟩

def harvest : String :=
  "\x7b\"version\":\"1\",\"actions\":[\x7b\"type\":\"collect\",\"count\":2,\"colors\":[\"red\",\"blue\"]\x7d]\x7d"

/-- The robot's tile has a blue item before a green and a red one, and another tile has a red one. -/
def orchard : World :=
  ((((World.new 2 1).withItems ⟨0, 0⟩ "blue" 2).withItems ⟨1, 0⟩ "red" 1).withItems ⟨0, 0⟩ "green" 1).withItems
    ⟨0, 0⟩ "red" 1

def isHarvest (p : Program) : Bool :=
  match p.actions with
  | [.collect (.number x) colors] => decide (x = 2 ∧ colors = ["red", "blue"])
  | _ => false

theorem actions_of_isHarvest {p : Program} (h : isHarvest p = true) :
    p.actions = [.collect (.number 2) ["red", "blue"]] := by
  unfold isHarvest at h
  split at h
  · next hactions =>
    obtain ⟨rfl, rfl⟩ := of_decide_eq_true h
    exact hactions
  · cases h

theorem harvest_collects :
    ∃ p, Program.load harvest = .ok p ∧
      ((Machine.new p .standard).run p orchard).failure = none ∧
      orchard.pickOrder ["red", "blue"] = [4, 0, 1] ∧
      ∃ m₂, Steps p (.new p .standard) orchard [.collect ["red", "blue"], .collect ["red", "blue"]] m₂
        (orchard.pick [4, 0]) := by
  have hload : ((Program.load harvest).toOption.any fun p =>
      isHarvest p && ((Machine.new p .standard).run p orchard).failure.isNone) = true := by
    decide +kernel
  obtain ⟨p, hp, hchecks⟩ := Program.exists_of_any hload
  rw [Bool.and_eq_true, Option.isNone_iff_eq_none] at hchecks
  obtain ⟨hharvest, hfailure⟩ := hchecks
  have horder : orchard.pickOrder ["red", "blue"] = [4, 0, 1] := by decide +kernel
  have hfront : (Machine.new p .standard).pending.pop? =
      some (.node (.collect (.number 2) ["red", "blue"]) .empty, .ofList []) := by
    rw [Queue.pop?_eq_some_iff, Machine.new, Queue.items_ofList, actions_of_isHarvest hharvest]
    rfl
  obtain ⟨-, hcollects⟩ := Program.load_collects hp .standard orchard
  have hallowed : (Machine.new p .standard).steps < Limits.standard.maxSteps := Nat.zero_lt_succ _
  obtain ⟨-, -, henough⟩ := hcollects _ _ _ _ _ _ _ 2 (.refl _ _) hfront hallowed (by decide +kernel)
  obtain ⟨-, -, -, hdone | ⟨k, m₂, e, -, -, hlimited⟩⟩ := henough (by rw [horder]; decide)
  · obtain ⟨m₂, hsteps, -⟩ := hdone
    rw [horder] at hsteps
    exact ⟨p, hp, hfailure, horder, m₂, hsteps⟩
  · rw [hlimited] at hfailure
    cases hfailure

end BlockRobot
