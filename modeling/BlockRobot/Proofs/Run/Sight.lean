import BlockRobot.Proofs.Run.Reach
import BlockRobot.Proofs.World.Alike

/-!
# What a run can see

A program without queries learns of its world through the tile of its robot, so its run depends on the
tiles that it comes to, and on no other: worlds that look alike from there let it do the same actions,
and fail alike (`run_sees_positions`).
-/

namespace BlockRobot

/-! ## Programs without queries -/

def Expr.queryFree : Expr → Bool
  | .number _ | .var _ => true
  | .query _ _ => false
  | .arithmetic _ left right => left.queryFree && right.queryFree

namespace Condition

mutual

def queryFree : Condition → Bool
  | .comparison left _ right => left.queryFree && right.queryFree
  | .and cs | .or cs => allQueryFree cs
  | .sensor _ _ => true

def allQueryFree : List Condition → Bool
  | [] => true
  | c :: cs => queryFree c && allQueryFree cs

end

end Condition

/-- Whether a statement has no query of its own, apart from those of the statements that it nests. -/
def Statement.queryFree : Statement → Bool
  | .forward count | .collect count _ | .putBox count | .takeBox count => count.queryFree
  | .repeatRange head _ => head.first.queryFree && head.last.queryFree && head.step.queryFree
  | .ifElse c _ elseIfs _ => c.queryFree && elseIfs.all fun clause => clause.1.queryFree
  | .whileLoop c _ => c.queryFree
  | .turnLeft | .turnRight | .turnBack | .call _ => true

def Program.queryFree (p : Program) : Bool := p.nodes.all Statement.queryFree

/-! ## Evaluating on the same tile -/

variable {w w' : World} {env : Bindings}

theorem Expr.value?_of_here (hhere : w'.here = w.here) {e : Expr} (he : e.queryFree = true) :
    e.value? w' env = e.value? w env := by
  induction e with
  | number x => rfl
  | var name => simp only [value?, lookup, hhere]
  | query name argument => cases he
  | arithmetic op left right ihl ihr =>
    simp only [queryFree, Bool.and_eq_true] at he
    simp only [value?, ihl he.1, ihr he.2]

namespace Condition

mutual

theorem holds_of_here (hhere : w'.here = w.here) (c : Condition) (hc : c.queryFree = true) :
    c.holds w' env = c.holds w env := by
  cases c with
  | comparison left op right =>
    simp only [queryFree, Bool.and_eq_true] at hc
    simp only [holds, Operand.ofLeft, Operand.ofRight, Expr.value?_of_here hhere hc.1,
      Expr.value?_of_here hhere hc.2]
  | and cs => exact (allHold_anyHolds_of_here hhere cs hc).1
  | or cs => exact (allHold_anyHolds_of_here hhere cs hc).2
  | sensor name check => simp only [holds, hhere]

theorem allHold_anyHolds_of_here (hhere : w'.here = w.here) (cs : List Condition)
    (hcs : allQueryFree cs = true) :
    allHold w' env cs = allHold w env cs ∧ anyHolds w' env cs = anyHolds w env cs := by
  cases cs with
  | nil => exact ⟨rfl, rfl⟩
  | cons c cs =>
    simp only [allQueryFree, Bool.and_eq_true] at hcs
    have hc := holds_of_here hhere c hcs.1
    obtain ⟨hall, hany⟩ := allHold_anyHolds_of_here hhere cs hcs.2
    simp only [allHold, anyHolds, hc, hall, hany, and_self]

end

end Condition

namespace Machine

/-! ## Expanding on the same tile -/

variable {program : Program} {m m₁ : Machine} {w₁ : World}

theorem branch_of_here (hhere : w'.here = w.here) {elseBody : List Statement}
    {clauses : List (Condition × List Statement)}
    (h : clauses.all (fun clause => clause.1.queryFree) = true) :
    branch w' env elseBody clauses = branch w env elseBody clauses := by
  induction clauses with
  | nil => rfl
  | cons clause rest ih =>
    simp only [List.all_cons, Bool.and_eq_true] at h
    simp only [branch, Condition.holds_of_here hhere clause.1 h.1, ih h.2]

theorem shortage?_of_here (hhere : w'.here = w.here) (a : Action) (n : Nat) :
    shortage? w' a n = shortage? w a n := by
  cases a with
  | collect colors => simp only [shortage?, hhere]
  | _ => rfl

theorem repetitions_of_here (hhere : w'.here = w.here) {s : Statement} (hs : s.queryFree = true)
    {a : Action} {count : Option Expr} (ha : action? s = some (a, count)) :
    repetitions w' env count = repetitions w env count := by
  cases count with
  | none => rfl
  | some e =>
    have he : e.queryFree = true := by
      cases s with
      | forward | collect | putBox | takeBox =>
        cases ha
        exact hs
      | _ => cases ha
    simp only [repetitions, Expr.value?_of_here hhere he]

/-- Without a query, what a statement expands to depends on the tile of the robot only, with limits and
without them. -/
theorem expand_of_here (program : Program) (hhere : w'.here = w.here) {s : Statement}
    (hs : s.queryFree = true) (m : Machine) (last : Option Kind) :
    m.expand program w' env s = m.expand program w env s ∧
      expansion program w' env last s = expansion program w env last s := by
  cases s with
  | ifElse c thenBody elseIfs elseBody =>
    have hbranch : branch w' env elseBody ((c, thenBody) :: elseIfs) =
        branch w env elseBody ((c, thenBody) :: elseIfs) := branch_of_here hhere hs
    simp only [expand, expansion, hbranch, and_self]
  | whileLoop c body =>
    have hholds : c.holds w' env = c.holds w env := Condition.holds_of_here hhere c hs
    simp only [expand, expansion, hholds, and_self]
  | repeatRange head body =>
    simp only [Statement.queryFree, Bool.and_eq_true] at hs
    obtain ⟨⟨hfirst, hlast⟩, hstep⟩ := hs
    simp only [expand, expandRange, expansion, rangeExpansion, Expr.value?_of_here hhere hfirst,
      Expr.value?_of_here hhere hlast, Expr.value?_of_here hhere hstep, and_self]
  | call name => exact ⟨rfl, rfl⟩
  | _ =>
    simp only [expand, expandAction, expansion, actionExpansion, action?, shortage?_of_here hhere,
      repetitions_of_here hhere hs rfl, and_self]

/-! ## The tiles of a run -/

def positions (program : Program) (m : Machine) (w : World) : List Position :=
  (List.range ((m.run program w).actions.length + 1)).map fun n =>
    (worldAfter program n m w).robot.position

theorem mem_positions (program : Program) (m : Machine) (w : World) :
    w.robot.position ∈ positions program m w :=
  List.mem_map.mpr ⟨0, List.mem_range.mpr (Nat.succ_pos _), rfl⟩

theorem worldAfter_silent (h : Step program m w none m₁ w₁) (n : Nat) :
    worldAfter program n m w = worldAfter program n m₁ w₁ := by
  cases n with
  | zero => exact h.world_eq.symm
  | succ n => simp only [worldAfter, advance_silent h]

theorem positions_silent (h : Step program m w none m₁ w₁) :
    positions program m w = positions program m₁ w₁ := by
  simp only [positions, run_silent h, worldAfter_silent h]

theorem positions_act {a : Action} (h : Step program m w (some a) m₁ w₁) :
    positions program m w = w.robot.position :: positions program m₁ w₁ := by
  have hafter (n : Nat) : worldAfter program (n + 1) m w = worldAfter program n m₁ w₁ := by
    simp only [worldAfter, advance_act h]
  rw [positions, run_act h, List.length_cons, List.range_succ_eq_map, List.map_cons, List.map_map]
  simp only [Function.comp_def, Nat.succ_eq_add_one, hafter]
  rfl

theorem positions_halt {f? : Option Failure} (h : Halt program m w f? m₁) :
    positions program m w = [w.robot.position] := by
  rw [positions, run_halt h]
  rfl

theorem positions_subset {a? : Option Action} (h : Step program m w a? m₁ w₁) :
    positions program m₁ w₁ ⊆ positions program m w := by
  cases a? with
  | none => rw [positions_silent h]; exact List.Subset.refl _
  | some a => rw [positions_act h]; exact List.subset_cons_self _ _

/-! ## Running in worlds that are alike -/

open World (Alike)

theorem Step.alike {a? : Option Action} (h : Step program m w a? m₁ w₁)
    (hm : m.Queued fun s => s.queryFree = true) (halike : Alike (positions program m w) w w') :
    ∃ w₁', Step program m w' a? m₁ w₁' ∧ Alike (positions program m₁ w₁) w₁ w₁' := by
  have hseen := mem_positions program m w
  have hsubset := positions_subset h
  cases h with
  | @act a rest w₁ front allowed applied =>
    have hresults := halike.apply hseen a
    rw [applied] at hresults
    generalize happlied : a.apply w' = r at hresults
    cases hresults with
    | done alike => exact ⟨_, .act front allowed happlied, alike.mono hsubset⟩
  | node front allowed expands fits =>
    rw [← (expand_of_here program (halike.here hseen) (hm.front front) m _).2] at expands
    exact ⟨w', .node front allowed expands fits, halike.mono hsubset⟩

theorem Halt.alike {f? : Option Failure} (h : Halt program m w f? m₁)
    (hm : m.Queued fun s => s.queryFree = true) (halike : Alike (positions program m w) w w') :
    Halt program m w' f? m₁ := by
  have hseen := mem_positions program m w
  have hhere := halike.here hseen
  cases h with
  | exhausted front => exact .exhausted front
  | stepLimit front used => exact .stepLimit front used
  | @refused a rest r front allowed applied =>
    have hresults := halike.apply hseen a
    rw [applied] at hresults
    generalize happlied : a.apply w' = r' at hresults
    cases hresults with
    | refused => exact .refused front allowed happlied
  | failed front allowed expands =>
    rw [← (expand_of_here program hhere (hm.front front) m _).2] at expands
    exact .failed front allowed expands
  | limited front allowed expands unfit stops limit =>
    rw [← (expand_of_here program hhere (hm.front front) m _).2] at expands
    rw [← (expand_of_here program hhere (hm.front front) _ none).1] at stops
    exact .limited front allowed expands unfit stops limit

theorem queued_queryFree (hfree : program.queryFree = true) (hm : m.Queued (· ∈ program.nodes)) :
    m.Queued fun s => s.queryFree = true := by
  intro s env hs
  exact List.all_eq_true.mp hfree s (hm s env hs)

theorem Steps.run_alike {as : List Action} {f? : Option Failure} {m₂ : Machine}
    (h : Steps program m w as m₁ w₁) (hhalt : Halt program m₁ w₁ f? m₂)
    (hfree : program.queryFree = true) (hm : m.Queued (· ∈ program.nodes))
    (halike : Alike (positions program m w) w w') :
    ∃ w₂, m.run program w' = ⟨as, f?, m₂, w₂⟩ ∧
      positions program m w' = positions program m w := by
  induction h generalizing w' with
  | refl m w =>
    have hhalt' := hhalt.alike (queued_queryFree hfree hm) halike
    refine ⟨w', run_halt hhalt', ?_⟩
    rw [positions_halt hhalt, positions_halt hhalt', halike.robot]
  | @step _ _ _ _ _ _ a? _ first _ ih =>
    obtain ⟨w₁', first', halike₁⟩ := first.alike (queued_queryFree hfree hm) halike
    obtain ⟨w₂, hrun, hpositions⟩ := ih hhalt (first.queued (hereditary_nodes program) hm) halike₁
    refine ⟨w₂, ?_, ?_⟩
    · cases a? with
      | none => rw [run_silent first', hrun]; rfl
      | some a => rw [run_act first', hrun]; rfl
    · cases a? with
      | none => rw [positions_silent first, positions_silent first', hpositions]
      | some a => rw [positions_act first, positions_act first', hpositions, halike.robot]

/-- Without queries, a run sees no more of its world than the tiles that it comes to. -/
theorem run_sees_positions (program : Program) (limits : Limits) (w w' : World)
    (hfree : program.queryFree = true)
    (halike : Alike (positions program (.new program limits) w) w w') :
    let t := (Machine.new program limits).run program w
    let t' := (Machine.new program limits).run program w'
    t'.actions = t.actions ∧ t'.failure = t.failure ∧ t'.machine.used = t.machine.used ∧
      positions program (.new program limits) w' = positions program (.new program limits) w := by
  obtain ⟨m₁, hsteps, hhalt⟩ := exists_steps_halt program (.new program limits) w
  have hm : (Machine.new program limits).Queued (· ∈ program.nodes) :=
    queued_new fun s hs => Program.mem_nodes_of_body List.mem_cons_self hs
  obtain ⟨w₂, hrun, hpositions⟩ := hsteps.run_alike hhalt hfree hm halike
  intro t t'
  have ht' : t' = ⟨t.actions, t.failure, t.machine, w₂⟩ := hrun
  rw [ht']
  exact ⟨rfl, rfl, rfl, hpositions⟩

def seek : Program :=
  ⟨"1", none, .empty, [.whileLoop (.sensor "hasItem" false) [.forward (.number 1)],
    .collect (.var "redCount") ["red"], .collect (.number 1) []], 0, .empty, []⟩

def meadow : World := (World.new 4 1).withItems ⟨1, 0⟩ "red" 2

/-- The meadow after others have been there, and left an item further on. -/
def trodden : World :=
  { meadow with
    items := ⟨⟨1, 0⟩, "green", false⟩ :: ⟨⟨3, 0⟩, "blue", true⟩ :: meadow.items
    inventory := { meadow.inventory with boxesPlaced := 5 } }

theorem seek_sees_positions :
    seek.queryFree = true ∧ Alike (positions seek (.new seek .standard) meadow) meadow trodden ∧
    trodden.itemsRemaining none ≠ meadow.itemsRemaining none ∧
    let t' := (Machine.new seek .standard).run seek trodden
    t'.actions = [.forward, .collect ["red"], .collect ["red"]] ∧
      t'.failure = some ⟨some (.collect []), .insufficientItems 1 0 []⟩ ∧
      positions seek (.new seek .standard) trodden = [⟨0, 0⟩, ⟨1, 0⟩, ⟨1, 0⟩, ⟨1, 0⟩] := by
  have hfree : seek.queryFree = true := by decide
  have halike : Alike (positions seek (.new seek .standard) meadow) meadow trodden :=
    ⟨rfl, rfl, rfl, rfl, rfl, rfl, by decide +kernel⟩
  have hmeadow : ((Machine.new seek .standard).run seek meadow).actions =
        [.forward, .collect ["red"], .collect ["red"]] ∧
      ((Machine.new seek .standard).run seek meadow).failure =
        some ⟨some (.collect []), .insufficientItems 1 0 []⟩ ∧
      positions seek (.new seek .standard) meadow = [⟨0, 0⟩, ⟨1, 0⟩, ⟨1, 0⟩, ⟨1, 0⟩] := by
    decide +kernel
  obtain ⟨hactions, hfailure, _, hpositions⟩ :=
    run_sees_positions seek .standard meadow trodden hfree halike
  exact ⟨hfree, halike, by decide, hactions.trans hmeadow.1, hfailure.trans hmeadow.2.1,
    hpositions.trans hmeadow.2.2⟩

end Machine

end BlockRobot
