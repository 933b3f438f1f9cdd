import BlockRobot.Proofs.Program.Blocks

/-!
# When a program does not load

Once the envelope of a program is right, only the cost of its `repeat` blocks can keep it from loading, and
it does so exactly if it is beyond the limit: `Program.loadValue_error_iff`.
-/

namespace BlockRobot

namespace Block

open Json (Value)

def unlimited (vs : List Value) : List Statement :=
  match (statements none (.ofRoot "actions") 0 vs).run ⟨[], .empty, 0⟩ with
  | .ok (ss, _) => ss
  | .error _ => []

theorem unlimited_eq (vs : List Value) : unlimited vs = (outline vs).value := by
  obtain ⟨l, hrun, -⟩ :=
    (agrees_statements none (.ofRoot "actions") 0 vs).ok ⟨[], .empty, 0⟩ (by simp)
  rw [unlimited, hrun]

/-- What it costs to write a `repeat` block out: in each round the statements of its body, without those that
they nest. -/
def cost (fields : Json.Fields) : Nat := rounds fields * (unlimited (bodyOf fields)).length

theorem charge_written (blocks : List Json.Fields) :
    charge (blocks.map writtenLoop) = sumOver cost blocks := by
  have hcost : cost = fun fields => (writtenLoop fields).rounds * (writtenLoop fields).body.length := by
    funext fields
    rw [cost, unlimited_eq]
    rfl
  rw [charge, sumOver_map, hcost]

end Block

namespace Program

open Block
open Json (Value field?)

/-- An object that has what every program needs: a version, a list of blocks, and names for its functions, if
it has functions at all. -/
structure Envelope (fields : Json.Fields) : Prop where
  version : ∃ version, field? "version" fields = some (.str version)
  actions : ∃ blocks, field? "actions" fields = some (.arr blocks)
  functions : ∀ v, field? "functions" fields = some v → ∃ entries, v = .arr entries ∧
    ∀ e ∈ entries, ∃ f name, e = .obj f ∧ field? "name" f = some (.str name) ∧
      (Text.trim name).isEmpty = false

theorem exists_mapM_declared {entries : List Value} (h : ∀ e ∈ entries, ∃ f name, e = .obj f ∧
      field? "name" f = some (.str name) ∧ (Text.trim name).isEmpty = false) :
    ∃ ds, entries.mapM declared? = some ds := by
  induction entries with
  | nil => exact ⟨[], rfl⟩
  | cons e rest ih =>
    obtain ⟨f, name, rfl, hname, hblank⟩ := h e List.mem_cons_self
    obtain ⟨ds, hds⟩ := ih fun e' he' => h e' (List.mem_cons_of_mem _ he')
    have hf : declared? (.obj f) = some (name, bodyBlocks f) := by
      simp only [declared?, hname, hblank, Bool.false_eq_true, if_false]
    refine ⟨(name, bodyBlocks f) :: ds, ?_⟩
    rw [List.mapM_cons, hf, hds]
    rfl

theorem Envelope.exists_source {fields : Json.Fields} (h : Envelope fields) :
    ∃ s, source? (.obj fields) = some s := by
  obtain ⟨version, hversion⟩ := h.version
  obtain ⟨blocks, hblocks⟩ := h.actions
  obtain ⟨entries, hallow, ds, hds⟩ :
      ∃ entries, allowList "functions" fields = .ok entries ∧ ∃ ds, entries.mapM declared? = some ds := by
    cases hv : field? "functions" fields with
    | none => exact ⟨[], by rw [allowList, hv], [], rfl⟩
    | some v =>
      obtain ⟨entries, rfl, hentries⟩ := h.functions v hv
      exact ⟨entries, by rw [allowList, hv, requireList, hv], exists_mapM_declared hentries⟩
  refine ⟨⟨ds, blocks⟩, ?_⟩
  simp only [source?, requireString, hversion, requireList, hblocks, hallow, hds, Option.map_some]

/-- A program with the right envelope fails to load exactly if it costs more than the limit to write its
`repeat` blocks out. Without the limit it always loads. -/
theorem loadValue_error_iff {fields : Json.Fields} (h : Envelope fields) :
    ((∃ e, loadValue (.obj fields) = .error e) ↔ maxUnrolled < sumOver cost (repeats (.obj fields))) ∧
    (∀ e, loadValue (.obj fields) = .error e → e = .expansionLimit maxUnrolled) ∧
    ∃ p, loadValueWith none (.obj fields) = .ok p := by
  obtain ⟨s, hs⟩ := h.exists_source
  have hrepeats : repeats (.obj fields) = s.repeats := by rw [repeats, hs]; rfl
  have hunlimited : ∀ k, none = some k → charge s.loops ≤ k := by
    intro k hk
    cases hk
  obtain ⟨p₀, hfree, -⟩ := loadValueWith_of_source hs hunlimited
  rw [hrepeats, ← charge_written, ← s.loops_eq]
  rcases Nat.lt_or_ge maxUnrolled (charge s.loops) with hlt | hle
  · have hfails : loadValue (.obj fields) = .error (.expansionLimit maxUnrolled) :=
      loadValueWith_eq_error hs (by decide) hlt
    refine ⟨⟨fun _ => hlt, fun _ => ⟨_, hfails⟩⟩, fun e he => ?_, p₀, hfree⟩
    exact Except.error.inj (he.symm.trans hfails)
  · have hlimit : ∀ k, some maxUnrolled = some k → charge s.loops ≤ k := by
      rintro k ⟨⟩
      exact hle
    obtain ⟨p, hp, -⟩ := loadValueWith_of_source hs hlimit
    have hloads : ∀ e, loadValue (.obj fields) ≠ .error e := by
      intro e he
      cases he.symm.trans hp
    refine ⟨⟨?_, fun hlt => absurd hlt (Nat.not_lt.mpr hle)⟩, fun e he => absurd he (hloads e), p₀, hfree⟩
    rintro ⟨e, he⟩
    exact absurd he (hloads e)

/-- Two definitions of a function, loops inside loops, and a loop inside a block that is left out. -/
def quarry : Json.Fields :=
  [("version", .str "1"),
    ("functions", .arr [
      .obj [("name", .str "dig"), ("body", .arr [repeatBlock 40000 [turnBlock, turnBlock]])],
      .obj [("name", .str "dig"), ("actions", .arr [repeatBlock 5 [turnBlock]])]]),
    ("actions", .arr [repeatBlock 300 [repeatBlock 100 [turnBlock]],
      .obj [("type", .str "if"), ("then", .arr [repeatBlock 70000 [turnBlock]])]])]

theorem loadValue_quarry :
    Envelope quarry ∧ sumOver cost (repeats (.obj quarry)) = 110105 ∧
      loadValue (.obj quarry) = .error (.expansionLimit 100000) := by
  have henvelope : Envelope quarry := by
    refine ⟨⟨_, rfl⟩, ⟨_, rfl⟩, fun v hv => ⟨_, (Option.some.inj hv).symm, ?_⟩⟩
    simp only [List.mem_cons, List.not_mem_nil, or_false, forall_eq_or_imp, forall_eq]
    exact ⟨⟨_, "dig", rfl, rfl, by decide⟩, ⟨_, "dig", rfl, rfl, by decide⟩⟩
  have hcost : sumOver cost (repeats (.obj quarry)) = 110105 := by
    rw [← charge_written, ← loops_eq]
    decide +kernel
  obtain ⟨hiff, herror, -⟩ := loadValue_error_iff henvelope
  obtain ⟨e, he⟩ := hiff.mpr (by rw [hcost]; decide)
  rw [herror e he] at he
  exact ⟨henvelope, hcost, he⟩

end Program

end BlockRobot
