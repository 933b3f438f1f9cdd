import BlockRobot.Proofs.Run.Activations
import Mathlib.Data.List.Chain

/-!
# The rule on boxes

Boxes are not put down by two statements in a row, nor taken: `Logged.kept` says so of the activations in
the log of a run, and `fromOne_of_block` of the actions that it does. What counts is the latest activation,
whatever else was expanded since: `expand_boxTwice_iff`.
-/

namespace BlockRobot

/-- Not two activations in a row for the same work on boxes. -/
def Activation.Apart (x y : Activation) : Prop := x.kind.isBoxAction = true → y.kind ≠ x.kind

/-- `n` actions `a` in a row, between `before` and `after`, and no further ones next to them. -/
structure IsBlock (a : Action) (n : Nat) (before after as : List Action) : Prop where
  eq : as = before ++ (List.replicate n a ++ after)
  pos : 0 < n
  left : before.getLast? ≠ some a
  right : after.head? ≠ some a

/-- The actions `done` and `todo` are those that the activations ask for. Only of the latest one there can
be some left to do. -/
structure Accounts (log : List Activation) (done todo : List Action) : Prop where
  total : done ++ todo = log.flatMap Activation.actions
  latest : ∀ x, log.getLast? = some x → todo <:+ x.actions

namespace Accounts

variable {x : Activation} {log : List Activation} {a : Action} {done todo : List Action}

theorem nil : Accounts [] [] [] := ⟨rfl, fun _ h => by cases h⟩

theorem act (h : Accounts log done (a :: todo)) : Accounts log (done ++ [a]) todo := by
  refine ⟨?_, fun x hx => (List.suffix_cons a todo).trans (h.latest x hx)⟩
  rw [List.append_assoc]
  exact h.total

theorem activate (h : Accounts log done []) : Accounts (log ++ [x]) done x.actions := by
  refine ⟨?_, fun y hy => ?_⟩
  · rw [List.flatMap_append, ← h.total, List.append_nil, List.flatMap_singleton]
  · rw [List.getLast?_append, List.getLast?_singleton] at hy
    cases hy
    exact List.suffix_rfl

theorem head_eq (h : Accounts (x :: log) (a :: done) todo) : a = x.action := by
  obtain ⟨n, hn⟩ := Nat.exists_eq_succ_of_ne_zero (Nat.pos_iff_ne_zero.mp x.pos)
  have htotal := h.total
  rw [List.flatMap_cons, Activation.actions, hn, List.replicate_succ] at htotal
  exact (List.cons.inj htotal).1

theorem tail (h : Accounts (x :: log) done todo) (hlog : log ≠ []) :
    ∃ done', done = x.actions ++ done' ∧ Accounts log done' todo := by
  obtain ⟨earlier, y, rfl⟩ : ∃ earlier y, log = earlier ++ [y] :=
    ⟨_, _, (List.dropLast_append_getLast hlog).symm⟩
  have hlatest : ∀ z, (earlier ++ [y]).getLast? = some z → todo <:+ z.actions := by
    intro z hz
    refine h.latest z ?_
    rw [List.getLast?_cons, hz]
    rfl
  obtain ⟨begun, hbegun⟩ := hlatest y (by simp)
  refine ⟨earlier.flatMap Activation.actions ++ begun, ?_, ?_, hlatest⟩
  · have htotal := h.total
    rw [List.flatMap_cons, List.flatMap_append, List.flatMap_singleton, ← hbegun] at htotal
    simp only [← List.append_assoc] at htotal
    rw [List.append_cancel_right htotal, List.append_assoc]
  · rw [List.append_assoc, hbegun, List.flatMap_append, List.flatMap_singleton]

end Accounts

/-! ## Blocks of actions -/

theorem eq_of_replicate_append {a : Action} {m n : Nat} {xs ys : List Action}
    (hx : xs.head? ≠ some a) (hy : ys.head? ≠ some a)
    (h : List.replicate m a ++ xs = List.replicate n a ++ ys) : m = n ∧ xs = ys := by
  induction m generalizing n with
  | zero =>
    cases n with
    | zero => exact ⟨rfl, h⟩
    | succ n =>
      rw [List.replicate_zero, List.nil_append] at h
      rw [h] at hx
      exact absurd rfl hx
  | succ m ih =>
    cases n with
    | zero =>
      rw [List.replicate_zero, List.nil_append] at h
      rw [← h] at hy
      exact absurd rfl hy
    | succ n =>
      obtain ⟨rfl, hrest⟩ := ih (List.cons.inj h).2
      exact ⟨rfl, hrest⟩

namespace IsBlock

variable {a : Action} {n : Nat} {before after as : List Action}

theorem mem (h : IsBlock a n before after as) : a ∈ as := by
  rw [h.eq]
  refine List.mem_append_right _ (List.mem_append_left _ ?_)
  exact List.mem_replicate.mpr ⟨Nat.pos_iff_ne_zero.mp h.pos, rfl⟩

theorem before_eq_nil (h : IsBlock a n before after as) (hall : ∀ b ∈ before, b = a) :
    before = [] := by
  refine List.getLast?_eq_none_iff.mp (Option.eq_none_iff_forall_ne_some.mpr fun b hb => h.left ?_)
  rw [hb, hall b (List.mem_of_getLast? hb)]

theorem after_eq_nil (h : IsBlock a n before after as) (hall : ∀ b ∈ after, b = a) : after = [] := by
  refine List.head?_eq_none_iff.mp (Option.eq_none_iff_forall_ne_some.mpr fun b hb => h.right ?_)
  rw [hb, hall b (List.mem_of_head? hb)]

theorem of_append {xs : List Action} (h : IsBlock a n (xs ++ before) after (xs ++ as)) :
    IsBlock a n before after as := by
  refine ⟨?_, h.pos, fun hlast => h.left ?_, h.right⟩
  · have heq := h.eq
    rw [List.append_assoc] at heq
    exact List.append_cancel_left heq
  · rw [List.getLast?_append, hlast]
    rfl

theorem begins {x : Activation} (h : IsBlock a n before after (x.actions ++ as))
    (hx : ¬ x.actions <+: before) : x.action = a ∧ before = [] := by
  rcases List.append_eq_append_iff.mp h.eq with ⟨bs, hbs, -⟩ | ⟨bs, hbs, hrest⟩
  · exact absurd ⟨bs, hbs.symm⟩ hx
  · have hall {b : Action} (hb : b ∈ before ++ bs) : b = x.action :=
      List.eq_of_mem_replicate (n := x.count) (by rwa [← Activation.actions, hbs])
    cases bs with
    | nil =>
      rw [List.append_nil] at hbs
      exact absurd (hbs ▸ List.prefix_rfl) hx
    | cons b bs =>
      obtain ⟨k, hk⟩ := Nat.exists_eq_succ_of_ne_zero (Nat.pos_iff_ne_zero.mp h.pos)
      rw [hk, List.replicate_succ] at hrest
      obtain rfl : a = b := (List.cons.inj hrest).1
      have ha : a = x.action := hall (List.mem_append_right _ List.mem_cons_self)
      exact ⟨ha.symm, h.before_eq_nil fun b hb => (hall (List.mem_append_left _ hb)).trans ha.symm⟩

end IsBlock

/-- The `n` actions `a` between `before` and `after` come from one activation. They are all that it asks
for, unless it is the latest one. -/
def FromOne (log : List Activation) (a : Action) (n : Nat) (before after : List Action) : Prop :=
  ∃ earlier x later, log = earlier ++ x :: later ∧ x.action = a ∧
    before = earlier.flatMap Activation.actions ∧
    (n = x.count ∨ n < x.count ∧ later = [] ∧ after = [])

theorem FromOne.cons {log : List Activation} {a : Action} {n : Nat} {before after : List Action}
    (x : Activation) (h : FromOne log a n before after) :
    FromOne (x :: log) a n (x.actions ++ before) after := by
  obtain ⟨earlier, y, later, rfl, ha, rfl, hcount⟩ := h
  exact ⟨x :: earlier, y, later, rfl, ha, rfl, hcount⟩

theorem fromOne_of_block {log : List Activation} {done todo : List Action}
    (hapart : log.IsChain Activation.Apart) (hlog : Accounts log done todo) {a : Action} {n : Nat}
    {before after : List Action} (hblock : IsBlock a n before after done)
    (hbox : a.kind.isBoxAction = true) : FromOne log a n before after := by
  induction log generalizing done before with
  | nil =>
    obtain ⟨rfl, -⟩ := List.append_eq_nil_iff.mp hlog.total
    cases hblock.mem
  | cons x rest ih =>
    cases rest with
    | nil =>
      have htotal : done ++ todo = List.replicate x.count x.action := by
        rw [hlog.total, List.flatMap_singleton, Activation.actions]
      have hx : x.action = a :=
        (List.eq_of_mem_replicate (htotal ▸ List.mem_append_left _ hblock.mem)).symm
      rw [hx] at htotal
      have hall {b : Action} (hb : b ∈ before ++ (List.replicate n a ++ after)) : b = a :=
        List.eq_of_mem_replicate (htotal ▸ List.mem_append_left _ (hblock.eq ▸ hb))
      obtain rfl := hblock.before_eq_nil fun b hb => hall (List.mem_append_left _ hb)
      obtain rfl := hblock.after_eq_nil fun b hb =>
        hall (List.mem_append_right _ (List.mem_append_right _ hb))
      have hcount : n + todo.length = x.count := by simpa [hblock.eq] using congrArg List.length htotal
      refine ⟨[], x, [], rfl, hx, rfl, ?_⟩
      rcases Nat.eq_or_lt_of_le (Nat.le.intro hcount) with h | h
      · exact .inl h
      · exact .inr ⟨h, rfl, rfl⟩
    | cons y ys =>
      obtain ⟨hxy, hys⟩ := List.isChain_cons_cons.mp hapart
      obtain ⟨done, rfl, hrest⟩ := hlog.tail (List.cons_ne_nil y ys)
      -- Either the activation comes before the block, or it is the one that the block comes from.
      by_cases hbefore : x.actions <+: before
      · obtain ⟨before, rfl⟩ := hbefore
        exact (ih hys hrest hblock.of_append).cons x
      · obtain ⟨hx, rfl⟩ := hblock.begins hbefore
        have hright : done.head? ≠ some a := by
          intro hhead
          obtain ⟨done, rfl⟩ := List.head?_eq_some_iff.mp hhead
          rw [Activation.Apart, Activation.kind, Activation.kind, hx, ← hrest.head_eq] at hxy
          exact hxy hbox rfl
        have heq := hblock.eq
        rw [Activation.actions, hx, List.nil_append] at heq
        obtain ⟨hcount, -⟩ := eq_of_replicate_append hright hblock.right heq
        exact ⟨[], x, y :: ys, rfl, hx, rfl, .inl hcount.symm⟩

namespace Machine

variable {program : Program} {m m₁ : Machine} {w w₁ : World} {log : List Activation}
  {as : List Action}

/-! ## What the log of a run says -/

structure Kept (m : Machine) (log : List Activation) (as : List Action) : Prop where
  last : m.last = log.getLast?.map Activation.kind
  apart : log.IsChain Activation.Apart
  accounts : ∃ todo, m.Ahead todo ∧ Accounts log as todo

theorem Kept.step {a? : Option Action} (h : Kept m log as) (hstep : Step program m w a? m₁ w₁) :
    Kept m₁ (log ++ (m.activation? w).toList) (as ++ a?.toList) := by
  obtain ⟨todo, hm, haccounts⟩ := h.accounts
  obtain ⟨later, hm₁, hadvances⟩ := hstep.advances hm
  cases hadvances with
  | acted quiet last =>
    rw [quiet, Option.toList_none, List.append_nil]
    exact ⟨last.trans h.last, h.apart, later, hm₁, haccounts.act⟩
  | expanded quiet last =>
    rw [quiet, Option.toList_none, Option.toList_none, List.append_nil, List.append_nil]
    exact ⟨last.trans h.last, h.apart, [], hm₁, haccounts⟩
  | @activated x _ _ _ _ _ _ activates last free _ =>
    rw [activates, Option.toList_some, Option.toList_none, List.append_nil]
    refine ⟨?_, ?_, x.actions, hm₁, haccounts.activate⟩
    · rw [last, List.getLast?_append, List.getLast?_singleton]
      rfl
    · refine h.apart.append (List.isChain_singleton x) fun y hy z hz hbox heq => ?_
      cases hz
      -- The machine remembers the latest activation, so the rule was checked against it.
      rcases free with hfree | hfree
      · rw [heq, hbox] at hfree
        cases hfree
      · refine hfree ?_
        rw [h.last, heq]
        exact congrArg (Option.map Activation.kind) hy

theorem Logged.kept {limits : Limits} (h : Logged program (.new program limits) w log as m₁ w₁) :
    Kept m₁ log as := by
  induction h with
  | refl => exact ⟨rfl, List.isChain_nil, [], ahead_new program limits, .nil⟩
  | step _ next ih => exact ih.step next

theorem exists_action_of_box {s : Statement} (h : s.kind.isBoxAction = true) :
    ∃ a count, action? s = some (a, count) := by
  cases s with
  | putBox count => exact ⟨_, _, rfl⟩
  | takeBox count => exact ⟨_, _, rfl⟩
  | _ => cases h

theorem expand_boxTwice_iff (program : Program) (m : Machine) (w : World) (env : Bindings)
    (s : Statement) (k : Kind) :
    (∃ a?, m.expand program w env s = .error ⟨a?, .consecutiveBoxAction k⟩) ↔
      s.kind = k ∧ k.isBoxAction = true ∧ m.last = some k := by
  constructor
  · rintro ⟨a?, h⟩
    have hcases := expand_cases program m w env s
    have hexpands := expansion_expands program w env m.last s
    rw [h] at hcases
    generalize expansion program w env m.last s = r at hcases hexpands
    cases hcases with
    | limited x e limit => cases limit
    | failed =>
      cases hexpands with
      | boxTwice acts box again => exact ⟨(kind_of_action? acts).symm, box, again⟩
      | short acts free counted lacks =>
        obtain ⟨colors, -, -, herror⟩ := shortage_eq lacks
        cases herror
  · rintro ⟨rfl, hbox, hlast⟩
    obtain ⟨a, count, ha⟩ := exists_action_of_box hbox
    rw [← kind_of_action? ha] at hbox hlast ⊢
    exact ⟨some a, expand_failed (Expands.boxTwice ha hbox hlast).eq⟩

/-- The rule on boxes, at each point of a run: no two activations in a row are for the same work on boxes,
so equal actions on boxes in a row come from one of them, and a statement breaks the rule just if it would
be the second. The run then ends with the world as it is. -/
theorem run_box_rule (program : Program) (limits : Limits) (w : World) :
    let trace := (Machine.new program limits).run program w
    (∃ log m₁, Logged program (.new program limits) w log trace.actions m₁ trace.world ∧
      Halt program m₁ trace.world trace.failure trace.machine) ∧
    ∀ log as m₁ w₁, Logged program (.new program limits) w log as m₁ w₁ →
      log.IsChain Activation.Apart ∧
      (∀ a n before after, IsBlock a n before after as → a.kind.isBoxAction = true →
        FromOne log a n before after) ∧
      ∀ s env rest, m₁.pending.pop? = some (.node s env, rest) → ∀ k,
        ((∃ a?, (m₁.entered rest s).expand program w₁ env s =
            .error ⟨a?, .consecutiveBoxAction k⟩) ↔
          s.kind = k ∧ k.isBoxAction = true ∧ log.getLast?.map Activation.kind = some k) ∧
        (s.kind = k → k.isBoxAction = true → log.getLast?.map Activation.kind = some k →
          m₁.steps < limits.maxSteps →
          ∃ a?, trace = ⟨as, some ⟨a?, .consecutiveBoxAction k⟩, m₁.entered rest s, w₁⟩) := by
  intro trace
  obtain ⟨m₁, hsteps, hhalt⟩ := exists_steps_halt program (.new program limits) w
  obtain ⟨log, hlog⟩ := hsteps.exists_logged
  refine ⟨⟨log, m₁, hlog, hhalt⟩, ?_⟩
  clear hsteps hhalt hlog log m₁
  intro log as m₁ w₁ hlog
  have hkept := hlog.kept
  obtain ⟨todo, -, haccounts⟩ := hkept.accounts
  refine ⟨hkept.apart, fun a n before after hblock hbox =>
    fromOne_of_block hkept.apart haccounts hblock hbox, fun s env rest hfront k => ?_⟩
  have hiff := expand_boxTwice_iff program (m₁.entered rest s) w₁ env s k
  rw [show (m₁.entered rest s).last = m₁.last from rfl, hkept.last] at hiff
  refine ⟨hiff, fun hk hbox hlast hsteps => ?_⟩
  obtain ⟨a, count, ha⟩ := exists_action_of_box (hk ▸ hbox)
  obtain rfl : a.kind = k := (kind_of_action? ha).trans hk
  have hfails : Expands program w₁ env m₁.last s (.error ⟨some a, .consecutiveBoxAction a.kind⟩) :=
    .boxTwice ha hbox (hkept.last.trans hlast)
  refine ⟨some a, run_eq_of_halt hlog.steps (.failed hfront ?_ hfails.eq)⟩
  rwa [hlog.steps.limits_eq]

end Machine

/-- Between its two statements for putting down boxes stand others, none of which acts. -/
def stacking : Program :=
  ⟨"1", none, .ofEntries [("idle", ⟨"idle", [.takeBox (.number 0), .forward (.var "far")]⟩)],
    [.takeBox (.number 2), .putBox (.number 2),
      .ifElse (.sensor "hasItem" true) [.turnLeft] [] [.call "idle"], .putBox (.number 1)], 0, .empty, []⟩

theorem stacking_box_rule :
    let w := (World.new 2 1).withPile ⟨0, 0⟩ 5
    let trace := (Machine.new stacking .standard).run stacking w
    trace.actions = [.takeBox, .takeBox, .putBox, .putBox] ∧
      trace.failure = some ⟨some .putBox, .consecutiveBoxAction .putBox⟩ ∧
      ∃ log m₁, Machine.Logged stacking (.new stacking .standard) w log trace.actions m₁ trace.world ∧
        FromOne log .putBox 2 [.takeBox, .takeBox] [] ∧
        log.getLast?.map Activation.kind = some .putBox := by
  intro w trace
  have hactions : trace.actions = [.takeBox, .takeBox, .putBox, .putBox] := by decide +kernel
  have hfailure : trace.failure = some ⟨some .putBox, .consecutiveBoxAction .putBox⟩ := by
    decide +kernel
  obtain ⟨⟨log, m₁, hlog, hhalt⟩, hrule⟩ := Machine.run_box_rule stacking .standard w
  obtain ⟨-, hblocks, hfront⟩ := hrule _ _ _ _ hlog
  refine ⟨hactions, hfailure, log, m₁, hlog, hblocks _ _ _ _ ?_ rfl, ?_⟩
  · exact ⟨hactions, by decide, by decide, by decide⟩
  · have hend : ∃ m₂, Machine.Halt stacking m₁ trace.world trace.failure m₂ := ⟨_, hhalt⟩
    rw [hfailure] at hend
    obtain ⟨m₂, hend⟩ := hend
    cases hend with
    | failed front _ expands =>
      exact ((hfront _ _ _ front _).1.mp ⟨_, Machine.expand_failed expands⟩).2.2

end BlockRobot
