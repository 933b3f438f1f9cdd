import BlockRobot.Proofs.Program.Reading
import BlockRobot.Proofs.Program.Unrolling

/-!
# Loops written out in the source

A `repeat` block means its body written out. `Block.WritesOut` exchanges one `repeat` block, at any depth of
a list, for as many copies of its body as it has rounds, and `Program.WritesOutIn` does so in the actions or in
a function of a program. Main statement: the two programs have the same actions and the same functions
(`Program.loadValue_writesOutIn`).
-/

namespace BlockRobot

/-! ## Rounds -/

theorem Span.isSome_count {α : Type} [Scalar α] {s : Span α}
    (h : (Scalar.isZero s.step || !Scalar.isFinite s.step) = false) : s.count.isSome = true := by
  unfold Span.count
  simp only [h, Bool.false_eq_true, if_false]
  split <;> rfl

theorem LoopHead.isSome_staticCount_times (n : Nat) :
    (LoopHead.times n).staticCount.isSome = true := by
  -- The bounds do not matter: only a step of zero, or one that is no number, keeps a range from a count.
  have hstep : (Scalar.isZero (Scalar.ofNat 1 : Float) || !Scalar.isFinite (Scalar.ofNat 1 : Float)) =
      false := by decide +kernel
  exact Span.isSome_count (s := (.times n : Span Float)) hstep

namespace Block

open Json (Value field?)

def rounds (fields : Json.Fields) : Nat := (LoopHead.times (repeatValue fields)).staticCount.getD 0

theorem staticCount_eq_rounds (fields : Json.Fields) :
    (LoopHead.times (repeatValue fields)).staticCount = some (rounds fields) := by
  obtain ⟨n, hn⟩ := Option.isSome_iff_exists.mp (LoopHead.isSome_staticCount_times (repeatValue fields))
  rw [rounds, hn, Option.getD_some]

theorem value_outlineBlock_repeat {fields : Json.Fields}
    (h : stringUnder? ["type"] fields = some "repeat") :
    (outlineBlock (.obj fields)).value = (List.replicate (rounds fields)
      (outline (listUnder ["body", "bodyActions"] fields)).value).flatten := by
  simp only [outlineBlock, h, orNone_outlineUnder]
  simp [written, staticCount_eq_rounds]

theorem value_outline_append (vs ws : List Value) :
    (outline (vs ++ ws)).value = (outline vs).value ++ (outline ws).value := by
  rw [value_outline, value_outline, value_outline, List.flatMap_append]

theorem value_outline_replicate (n : Nat) (vs : List Value) :
    (outline (List.replicate n vs).flatten).value = (List.replicate n (outline vs).value).flatten := by
  induction n with
  | zero => rfl
  | succ n ih =>
    rw [List.replicate_succ, List.replicate_succ, List.flatten_cons, List.flatten_cons,
      value_outline_append, ih]

/-! ## Exchanging a block -/

/-- One `repeat` block of a list, at any depth, is exchanged for the copies of its body. -/
inductive WritesOut : List Value → List Value → Prop
  | here {fields : Json.Fields} (rest : List Value)
      (isRepeat : stringUnder? ["type"] fields = some "repeat") :
    WritesOut (.obj fields :: rest)
      ((List.replicate (rounds fields) (listUnder ["body", "bodyActions"] fields)).flatten ++ rest)
  | later (v : Value) {vs vs' : List Value} (writes : WritesOut vs vs') : WritesOut (v :: vs) (v :: vs')
  | nested {fields : Json.Fields} {key : String} {items items' : List Value} (rest : List Value)
      (nests : key ∈ listKeys) (found : field? key fields = some (.arr items))
      (writes : WritesOut items items') :
    WritesOut (.obj fields :: rest) (.obj (Entries.put key (.arr items') fields) :: rest)
  | clause {fields clause : Json.Fields} {clauseKey key : String} {earlier later items items' : List Value}
      (rest : List Value) (nestsClauses : clauseKey ∈ clauseKeys)
      (foundClauses : field? clauseKey fields = some (.arr (earlier ++ .obj clause :: later)))
      (nests : key ∈ ["then", "thenActions"]) (found : field? key clause = some (.arr items))
      (writes : WritesOut items items') :
    WritesOut (.obj fields :: rest)
      (.obj (Entries.put clauseKey
        (.arr (earlier ++ .obj (Entries.put key (.arr items') clause) :: later)) fields) :: rest)

theorem value_outline_cons_congr {v v' : Value} (h : (outlineBlock v').value = (outlineBlock v).value)
    (rest : List Value) : (outline (v' :: rest)).value = (outline (v :: rest)).value := by
  rw [value_outline, value_outline, List.flatMap_cons, List.flatMap_cons, h]

theorem value_outlineClauses_congr {v v' : Value}
    (h : (outlineClause v').value = (outlineClause v).value) (earlier later : List Value) :
    (outlineClauses (earlier ++ v' :: later)).value = (outlineClauses (earlier ++ v :: later)).value := by
  simp only [value_outlineClauses, List.flatMap_append, List.flatMap_cons, h]

theorem WritesOut.value_outline_eq {vs vs' : List Value} (h : WritesOut vs vs') :
    (outline vs').value = (outline vs).value := by
  -- On the way down to the block; on the way back the blocks around it read alike.
  induction h with
  | here rest isRepeat =>
    rw [value_outline_append, value_outline_replicate, ← value_outlineBlock_repeat isRepeat]
    rfl
  | later v _ ih =>
    simp only [value_outline, List.flatMap_cons] at ih ⊢
    rw [ih]
  | nested rest nests found _ ih =>
    exact value_outline_cons_congr (SameReading.put_list nests found ih).value_outlineBlock rest
  | clause rest nestsClauses foundClauses nests found _ ih =>
    have hlists : ["then", "thenActions"] ⊆ listKeys := by decide
    have hclause := (SameReading.put_list (hlists nests) found ih).value_outlineClause
    have hclauses := value_outlineClauses_congr hclause
    exact value_outline_cons_congr
      (SameReading.put_clauses nestsClauses foundClauses (hclauses _ _)).value_outlineBlock rest

end Block

namespace Program

open Block
open Json (Value field?)

inductive WritesOutIn : Value → Value → Prop
  | actions {fields : Json.Fields} {blocks blocks' : List Value}
      (found : field? "actions" fields = some (.arr blocks)) (writes : WritesOut blocks blocks') :
    WritesOutIn (.obj fields) (.obj (Entries.put "actions" (.arr blocks') fields))
  | function {fields function : Json.Fields} {key : String} {earlier later blocks blocks' : List Value}
      (foundFunctions : field? "functions" fields = some (.arr (earlier ++ .obj function :: later)))
      (isBody : key ∈ ["body", "bodyActions", "actions"])
      (found : field? key function = some (.arr blocks)) (writes : WritesOut blocks blocks') :
    WritesOutIn (.obj fields) (.obj (Entries.put "functions"
      (.arr (earlier ++ .obj (Entries.put key (.arr blocks') function) :: later)) fields))

/-! ## Functions -/

theorem bodyBlocks_eq (fields : Json.Fields) :
    bodyBlocks fields = listUnder ["body", "bodyActions", "actions"] fields := by
  simp only [bodyBlocks, listUnder]
  congr 1
  refine findSome?_congr fun key _ => ?_
  cases field? key fields with
  | none => rfl
  | some v => cases v <;> rfl

def Source.meant (d : String × List Value) : Function := ⟨d.1, (outline d.2).value⟩

theorem declared?_put {function : Json.Fields} {key : String} {blocks blocks' : List Value}
    (isBody : key ∈ ["body", "bodyActions", "actions"])
    (found : field? key function = some (.arr blocks))
    (hvalue : (outline blocks').value = (outline blocks).value) :
    (declared? (.obj (Entries.put key (.arr blocks') function))).map Source.meant =
      (declared? (.obj function)).map Source.meant := by
  have hname : field? "name" (Entries.put key (.arr blocks') function) = field? "name" function := by
    rw [field?_put, if_neg]
    rintro rfl
    exact absurd isBody (by decide)
  have hbody := listUnder_put (fun vs => (outline vs).value) found hvalue
    ["body", "bodyActions", "actions"]
  simp only [declared?, hname]
  split
  · split
    · rfl
    · simp only [Option.map_some, Source.meant, bodyBlocks_eq, hbody]
  · rfl

theorem Source.declare_eq (table : Table Function) (functions : List (String × List Value)) :
    declare table functions = (functions.map meant).foldl (fun t f => t.insert f.name f) table := by
  rw [declare, List.foldl_map]
  rfl

theorem Source.declare_congr {v v' : Value} (h : (declared? v').map meant = (declared? v).map meant)
    {earlier later : List Value} {functions functions' : List (String × List Value)}
    (hf : (earlier ++ v :: later).mapM declared? = some functions)
    (hf' : (earlier ++ v' :: later).mapM declared? = some functions') (table : Table Function) :
    declare table functions' = declare table functions := by
  simp only [List.mapM_append, List.mapM_cons, Option.bind_eq_bind, Option.bind_eq_some_iff,
    Option.pure_def, Option.some.injEq] at hf hf'
  obtain ⟨ds, hds, _, ⟨d, hd, es, hes, rfl⟩, rfl⟩ := hf
  obtain ⟨ds', hds', _, ⟨d', hd', es', hes', rfl⟩, rfl⟩ := hf'
  cases hds.symm.trans hds'
  cases hes.symm.trans hes'
  -- The names and the order are the same, and so the later of two functions wins in both tables.
  have hmeant : meant d' = meant d := by simpa [hd, hd'] using h
  simp only [declare_eq, List.map_append, List.map_cons, hmeant]

/-! ## Programs -/

variable {limit : Option Nat}

theorem copied_of_loadValueWith {fields : Json.Fields} {p : Program}
    (h : loadValueWith limit (.obj fields) = .ok p) :
    requireString "version" fields = .ok p.version ∧ p.name = stringUnder? ["programName"] fields := by
  obtain ⟨s, hs⟩ := exists_source_of_loadValueWith h
  obtain ⟨_, version, functionBlocks, ⟨⟩, hversion, hblocks, hfunctions, -⟩ := exists_fields_of_source hs
  rw [loadValueWith_eq hversion hblocks hfunctions] at h
  obtain ⟨r, -, hp⟩ := exists_of_bind_ok h
  cases hp
  exact ⟨hversion, rfl⟩

section

variable {fields : Json.Fields} {key other : String} (hne : key ≠ other) (v : Value)

include hne

theorem requireString_put :
    requireString other (Entries.put key v fields) = requireString other fields := by
  simp only [requireString, field?_put, if_neg hne]

theorem requireList_put : requireList other (Entries.put key v fields) = requireList other fields := by
  simp only [requireList, field?_put, if_neg hne]

theorem allowList_put : allowList other (Entries.put key v fields) = allowList other fields := by
  simp only [allowList, field?_put, if_neg hne, requireList_put hne]

end

theorem WritesOutIn.copied {v v' : Value} {p p' : Program} (h : WritesOutIn v v')
    (hp : loadValueWith limit v = .ok p) (hp' : loadValueWith limit v' = .ok p') :
    p'.version = p.version ∧ p'.name = p.name := by
  obtain ⟨fields, key, list, rfl, rfl, hversion, hname⟩ : ∃ fields key list, v = .obj fields ∧
      v' = .obj (Entries.put key list fields) ∧ key ≠ "version" ∧ key ≠ "programName" := by
    cases h with
    | actions _ _ => exact ⟨_, "actions", _, rfl, rfl, by decide, by decide⟩
    | function _ _ _ _ => exact ⟨_, "functions", _, rfl, rfl, by decide, by decide⟩
  obtain ⟨hv, hn⟩ := copied_of_loadValueWith hp
  obtain ⟨hv', hn'⟩ := copied_of_loadValueWith hp'
  rw [requireString_put hversion] at hv'
  refine ⟨Except.ok.inj (hv'.symm.trans hv), ?_⟩
  rw [hn, hn', stringUnder?, stringUnder?, List.findSome?_singleton, List.findSome?_singleton,
    field?_put, if_neg hname]

theorem WritesOutIn.same_source {v v' : Value} {s s' : Source} (h : WritesOutIn v v')
    (hs : source? v = some s) (hs' : source? v' = some s') :
    Source.declare .empty s'.functions = Source.declare .empty s.functions ∧
      (outline s'.actions).value = (outline s.actions).value := by
  obtain ⟨fields, _, functionBlocks, rfl, -, hactions, hfunctions, hmap⟩ := exists_fields_of_source hs
  obtain ⟨fields', _, functionBlocks', rfl, -, hactions', hfunctions', hmap'⟩ :=
    exists_fields_of_source hs'
  cases h with
  | actions found writes =>
    rw [allowList_put (by decide)] at hfunctions'
    cases hfunctions.symm.trans hfunctions'
    have hsame : s'.functions = s.functions := Option.some.inj (hmap'.symm.trans hmap)
    simp only [requireList, field?_put, if_true, found, Except.ok.injEq] at hactions hactions'
    rw [← hactions, ← hactions', hsame]
    exact ⟨rfl, writes.value_outline_eq⟩
  | function foundFunctions isBody found writes =>
    rw [requireList_put (by decide)] at hactions'
    have hsame : s'.actions = s.actions := Except.ok.inj (hactions'.symm.trans hactions)
    simp only [allowList, requireList, field?_put, if_true, foundFunctions, Except.ok.injEq]
      at hfunctions hfunctions'
    subst hfunctions hfunctions'
    have hdeclared := declared?_put isBody found writes.value_outline_eq
    rw [hsame]
    exact ⟨Source.declare_congr hdeclared hmap hmap' .empty, rfl⟩

/-- A program and the one in which a `repeat` block is written out differ at most in how many blocks
were counted, in what was written out on loading and in the warnings. -/
theorem loadValue_writesOutIn {v v' : Value} {p p' : Program} (h : WritesOutIn v v')
    (hp : loadValue v = .ok p) (hp' : loadValue v' = .ok p') :
    p' = { p with
      blockCount := p'.blockCount
      unrolled := p'.unrolled
      warnings := p'.warnings } := by
  obtain ⟨s, hs, hdescribes, -⟩ := source_of_loadValue hp
  obtain ⟨s', hs', hdescribes', -⟩ := source_of_loadValue hp'
  obtain ⟨hversion, hname⟩ := h.copied hp hp'
  obtain ⟨hdeclare, houtline⟩ := h.same_source hs hs'
  have hfunctions : p'.functions = p.functions := by
    rw [hdescribes'.functions, hdescribes.functions, hdeclare]
  have hactions : p'.actions = p.actions := by
    rw [hdescribes'.actions, hdescribes.actions, houtline]
  rw [← hversion, ← hname, ← hfunctions, ← hactions]

def elseClause (blocks : List Value) : Json.Fields :=
  [("condition", .obj [("type", .str "sensor"), ("functionName", .str "hasItem")]), ("then", .arr blocks)]

def branching (blocks : List Value) : Json.Fields :=
  [("type", .str "if"), ("condition", .obj [("type", .str "sensor"), ("functionName", .str "hasBox")]),
    ("elseIf", .arr [.obj (elseClause blocks)])]

def crossingBody (blocks : List Value) : Json.Fields :=
  [("name", .str "cross"), ("body", .arr [turnBlock, .obj (branching blocks)])]

/-- A program with blocks in an else-if clause of a function that replaces an earlier one. -/
def crossing (blocks : List Value) : Value :=
  .obj [("version", .str "1"), ("actions", .arr [turnBlock]),
    ("functions", .arr [.obj [("name", .str "cross")], .obj (crossingBody blocks)])]

theorem exists_of_isOk {ε α : Type} {x : Except ε α} (h : x.isOk = true) : ∃ a, x = .ok a := by
  cases x with
  | error e => cases h
  | ok a => exact ⟨a, rfl⟩

theorem exists_of_any {ε α : Type} {x : Except ε α} {check : α → Bool}
    (h : x.toOption.any check = true) : ∃ a, x = .ok a ∧ check a = true := by
  cases x with
  | error e => cases h
  | ok a => exact ⟨a, rfl, h⟩

theorem crossing_writesOutIn :
    ∃ p p', loadValue (crossing [repeatBlock 2 [turnBlock], turnBlock]) = .ok p ∧
      loadValue (crossing [turnBlock, turnBlock, turnBlock]) = .ok p' ∧
      WritesOutIn (crossing [repeatBlock 2 [turnBlock], turnBlock])
        (crossing [turnBlock, turnBlock, turnBlock]) ∧
      p' = { p with
        blockCount := p'.blockCount
        unrolled := p'.unrolled
        warnings := p'.warnings } := by
  have hblocks : WritesOut [repeatBlock 2 [turnBlock], turnBlock] [turnBlock, turnBlock, turnBlock] := by
    have hrounds : rounds [("type", .str "repeat"), ("count", .num (.int (2 : Nat))),
        ("body", .arr [turnBlock])] = 2 := by decide +kernel
    have hhere := WritesOut.here [turnBlock] (rfl : stringUnder? ["type"]
      [("type", .str "repeat"), ("count", .num (.int (2 : Nat))), ("body", .arr [turnBlock])] = _)
    rwa [hrounds] at hhere
  have hclause : WritesOut [.obj (branching [repeatBlock 2 [turnBlock], turnBlock])]
      [.obj (branching [turnBlock, turnBlock, turnBlock])] :=
    @WritesOut.clause (branching _) (elseClause _) "elseIf" "then" [] [] _ _ []
      (by decide) rfl (by decide) rfl hblocks
  have hprogram : WritesOutIn (crossing [repeatBlock 2 [turnBlock], turnBlock])
      (crossing [turnBlock, turnBlock, turnBlock]) :=
    @WritesOutIn.function _ (crossingBody _) "body" [.obj [("name", .str "cross")]] [] _ _
      rfl (by decide) rfl (.later turnBlock hclause)
  obtain ⟨p, hp⟩ := exists_of_isOk (x := loadValue (crossing [repeatBlock 2 [turnBlock], turnBlock]))
    (by decide +kernel)
  obtain ⟨p', hp'⟩ := exists_of_isOk (x := loadValue (crossing [turnBlock, turnBlock, turnBlock]))
    (by decide +kernel)
  exact ⟨p, p', hp, hp', hprogram, loadValue_writesOutIn hprogram hp hp'⟩

end Program

end BlockRobot
