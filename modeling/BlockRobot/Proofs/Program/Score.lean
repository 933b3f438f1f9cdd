import BlockRobot.Proofs.Program.Blocks
import Mathlib.Data.List.Flatten
import Mathlib.Data.List.Perm.Subperm

/-!
# What the score of a program covers

The score of a program is the number of its blocks, under whatever keys they stand. `Block.counted` lists
these blocks. Where no `repeat` block has more than one round, each statement of a loaded program comes from a
block of its own among them: `Program.nodes_counted_of_loadValue`.
-/

namespace BlockRobot

namespace Block

open Json (Value field?)
open Statement (nodesOf)

/-! ## The blocks that are counted -/

/-- The list of an else-if, which is counted whether or not the else-if is left out. -/
def thenBlocks : Value → List Value
  | .obj fields => listUnder ["then", "thenActions"] fields
  | _ => []

def clausesCounted (fields : Json.Fields) : List Value :=
  clauseKeys.flatMap fun key => listUnder [key] fields

/-- The lists whose blocks are counted with a block: those under all of its keys. -/
def listsCounted : Value → List (List Value)
  | .obj fields =>
    ["body", "bodyActions"].map (fun key => listUnder [key] fields) ++
      (["then", "thenActions"].map (fun key => listUnder [key] fields) ++
        ((clausesCounted fields).map thenBlocks ++
          ["else", "elseActions"].map fun key => listUnder [key] fields))
  | _ => []

def typed? : Value → Option Json.Fields
  | .obj fields => if (stringUnder? ["type"] fields).isSome then some fields else none
  | _ => none

def countedHere : Value → List Json.Fields
  | .obj fields => (Value.obj fields :: clausesCounted fields).filterMap typed?
  | _ => []

theorem sizeOf_lt_of_mem_clausesCounted {fields : Json.Fields} {clause : Value}
    (h : clause ∈ clausesCounted fields) : sizeOf clause < sizeOf (Value.obj fields) := by
  obtain ⟨key, -, hclause⟩ := List.mem_flatMap.mp h
  exact Nat.lt_trans (List.sizeOf_lt_of_mem hclause) (sizeOf_listUnder_lt [key] fields)

theorem sizeOf_lt_of_mem_listsCounted {v : Value} : ∀ vs ∈ listsCounted v, sizeOf vs < sizeOf v := by
  intro vs hvs
  cases v with
  | obj fields =>
    have hunder {keys : List String} (h : vs ∈ keys.map fun key => listUnder [key] fields) :
        sizeOf vs < sizeOf (Value.obj fields) := by
      obtain ⟨key, -, rfl⟩ := List.mem_map.mp h
      exact sizeOf_listUnder_lt [key] fields
    simp only [listsCounted, List.mem_append] at hvs
    rcases hvs with hvs | hvs | hvs | hvs
    · exact hunder hvs
    · exact hunder hvs
    · obtain ⟨clause, hclause, rfl⟩ := List.mem_map.mp hvs
      refine Nat.lt_of_le_of_lt ?_ (sizeOf_lt_of_mem_clausesCounted hclause)
      cases clause with
      | obj f => exact Nat.le_of_lt (sizeOf_listUnder_lt _ f)
      | _ => simp [thenBlocks]
    · exact hunder hvs
  | _ => cases hvs

def counted (vs : List Value) : List Json.Fields :=
  vs.flatMap fun v => countedHere v ++ (listsCounted v).attach.flatMap fun vs' => counted vs'.1
termination_by sizeOf vs
decreasing_by
  exact Nat.lt_trans (sizeOf_lt_of_mem_listsCounted vs'.1 vs'.2) (List.sizeOf_lt_of_mem ‹_›)

theorem counted_eq (vs : List Value) :
    counted vs = vs.flatMap fun v => countedHere v ++ (listsCounted v).flatMap counted := by
  rw [counted]
  simp only [List.flatMap_subtype, List.unattach_attach]

/-! ## Their number -/

theorem countUnder?_eq (key : String) (fields : Json.Fields) :
    countUnder? key fields = ((field? key fields).bind array?).map count :=
  eq_map_field? rfl (fun _ v _ => by cases v <;> rfl) fields

theorem countClausesUnder_eq (key : String) (fields : Json.Fields) :
    countClausesUnder key fields = countClauses (listUnder [key] fields) := by
  induction fields with
  | nil => rfl
  | cons f rest ih =>
    obtain ⟨k, v⟩ := f
    by_cases hk : k = key
    · cases v <;> simp [countClausesUnder, listUnder, field?, Entries.get?, hk, array?, countClauses]
    · cases v <;> simpa [countClausesUnder, listUnder, field?, Entries.get?, hk] using ih

theorem getD_countUnder (keys : List String) (fields : Json.Fields) :
    ((keys.findSome? fun key => countUnder? key fields).getD 0) = count (listUnder keys fields) := by
  simp only [countUnder?_eq, listUnder]
  induction keys with
  | nil => rfl
  | cons key rest ih =>
    rw [List.findSome?_cons, List.findSome?_cons]
    cases (field? key fields).bind array? with
    | none => exact ih
    | some items => rfl

theorem length_typed_cons (fields : Json.Fields) (rest : List Value) :
    ((Value.obj fields :: rest).filterMap typed?).length = own fields + (rest.filterMap typed?).length := by
  cases h : (stringUnder? ["type"] fields).isSome <;> simp [typed?, own, h, Nat.add_comm]

theorem countClauses_eq (clauses : List Value) :
    countClauses clauses = (clauses.filterMap typed?).length + sumOver count (clauses.map thenBlocks) := by
  induction clauses with
  | nil => rfl
  | cons clause rest ih =>
    simp only [countClauses, ih, List.map_cons, sumOver]
    cases clause with
    | obj fields =>
      rw [length_typed_cons, countClause, getD_countUnder, thenBlocks]
      omega
    | _ => rw [List.filterMap_cons_none rfl]; simp [countClause, thenBlocks, count]

theorem countBlock_eq (v : Value) :
    countBlock v = (countedHere v).length + sumOver count (listsCounted v) := by
  cases v with
  | obj fields =>
    have hunder (key : String) : (countUnder? key fields).getD 0 = count (listUnder [key] fields) := by
      rw [← getD_countUnder, List.findSome?_singleton]
    have hclauses : countClauses (clausesCounted fields) =
        countClauses (listUnder ["elseIf"] fields) + countClauses (listUnder ["elseIfClauses"] fields) := by
      simp only [clausesCounted, clauseKeys, List.flatMap_cons, List.flatMap_nil, List.append_nil,
        countClauses_eq, List.filterMap_append, List.length_append, List.map_append, sumOver_append]
      omega
    rw [countClauses_eq] at hclauses
    simp only [countBlock, listKeys, clauseKeys, sumOver, hunder, countClausesUnder_eq, countedHere,
      length_typed_cons, listsCounted, sumOver_append, List.map_cons, List.map_nil]
    omega
  | _ => rfl

theorem count_eq (vs : List Value) : count vs = sumOver countBlock vs := by
  induction vs with
  | nil => rfl
  | cons v rest ih => rw [count, sumOver, ih]

theorem length_counted (vs : List Value) : (counted vs).length = count vs := by
  rw [counted_eq, length_flatMap, count_eq]
  refine sumOver_congr fun v hv => ?_
  have hlists : ∀ vs' ∈ listsCounted v, (counted vs').length = count vs' :=
    fun vs' hvs' => length_counted vs'
  rw [List.length_append, length_flatMap, sumOver_congr hlists, countBlock_eq]
termination_by sizeOf vs
decreasing_by
  exact Nat.lt_trans (sizeOf_lt_of_mem_listsCounted vs' hvs') (List.sizeOf_lt_of_mem hv)

/-! ## What loading reads is counted -/

theorem listUnder_pair (a b : String) (fields : Json.Fields) :
    listUnder [a, b] fields = listUnder [a] fields ∨ listUnder [a, b] fields = listUnder [b] fields := by
  cases ha : (field? a fields).bind array? with
  | some items => exact .inl (by simp [listUnder, ha])
  | none => exact .inr (by simp [listUnder, ha])

theorem first_sublist {β : Type} (f : List Value → List β) (a b : String) (fields : Json.Fields) :
    (f (listUnder [a, b] fields)).Sublist
      (([a, b].map fun key => listUnder [key] fields).flatMap f) := by
  simp only [List.map_cons, List.map_nil, List.flatMap_cons, List.flatMap_nil, List.append_nil]
  rcases listUnder_pair a b fields with h | h <;> rw [h]
  · exact List.sublist_append_left _ _
  · exact List.sublist_append_right _ _

theorem clauseLists_sublist {β : Type} (f : List Value → List β) (clauses : List Value) :
    ((clauses.filterMap clauseList?).flatMap f).Sublist ((clauses.map thenBlocks).flatMap f) := by
  induction clauses with
  | nil => exact .slnil
  | cons clause rest ih =>
    rw [List.map_cons, List.flatMap_cons]
    cases h : clauseList? clause with
    | none =>
      rw [List.filterMap_cons_none h]
      exact ih.trans (List.sublist_append_right _ _)
    | some vs =>
      have hvs : vs = thenBlocks clause := by
        cases clause with
        | obj fields =>
          simp only [clauseList?] at h
          split at h
          · exact (Option.some.inj h).symm
          · cases h
        | _ => cases h
      rw [List.filterMap_cons_some h, List.flatMap_cons, hvs]
      exact ih.append_left _

/-- Of the keys for one list, loading reads the first that has one, and all of them are counted. -/
theorem listsRead_sublist {β : Type} (f : List Value → List β) (v : Value) :
    ((listsRead v).flatMap f).Sublist ((listsCounted v).flatMap f) := by
  cases v with
  | obj fields =>
    have hclauses : (((listUnder clauseKeys fields).filterMap clauseList?).flatMap f).Sublist
        (((clausesCounted fields).map thenBlocks).flatMap f) := by
      refine (clauseLists_sublist f _).trans ?_
      have hfirst := first_sublist (fun clauses => (clauses.map thenBlocks).flatMap f)
        "elseIf" "elseIfClauses" fields
      simpa only [clausesCounted, clauseKeys, List.map_flatMap, List.flatMap_assoc, List.flatMap_map]
        using hfirst
    have hbody := first_sublist f "body" "bodyActions" fields
    have hthen := first_sublist f "then" "thenActions" fields
    have helse := first_sublist f "else" "elseActions" fields
    simp only [listsCounted, List.flatMap_append]
    rcases listsRead_cases fields with h | h | h <;> rw [h]
    · exact List.nil_sublist _
    · rw [List.flatMap_singleton]
      exact hbody.trans (List.sublist_append_left _ _)
    · rw [List.flatMap_cons, List.flatMap_append, List.flatMap_singleton]
      exact (hthen.append (hclauses.append helse)).trans (List.sublist_append_right _ _)
  | _ => exact List.nil_sublist _

/-! ## Statements and the blocks they come from -/

def kinds (vs : List Value) : List Kind := (nodesOf (outline vs).value).map Statement.kind

theorem kinds_eq (vs : List Value) :
    kinds vs = vs.flatMap fun v => (nodesOf (outlineBlock v).value).map Statement.kind := by
  rw [kinds, value_outline, Statement.nodesOf_flatMap, List.map_flatMap]

theorem countedHere_of_kind {fields : Json.Fields} {k : Kind} (h : kind? fields = some k) :
    ∃ others, countedHere (.obj fields) = fields :: others := by
  obtain ⟨type, htype, -⟩ := Option.bind_eq_some_iff.mp h
  have htyped : typed? (.obj fields) = some fields := by
    rw [typed?, htype]
    rfl
  exact ⟨_, List.filterMap_cons_some htyped⟩

/-- A block stands for at most one statement beside those that its lists stand for. -/
theorem kinds_outlineBlock {v : Value} (h : ∀ fields ∈ repeat? v, rounds fields ≤ 1) :
    ((nodesOf (outlineBlock v).value).map Statement.kind).Sublist
      ((countedHere v).filterMap kind? ++ (listsRead v).flatMap kinds) := by
  have hmakes := makes_outlineBlock v
  generalize outlineBlock v = x at hmakes
  cases hmakes with
  | nothing skips => exact List.nil_sublist _
  | @statement fields s kind nested =>
    obtain ⟨others, hhere⟩ := countedHere_of_kind kind
    have hnodes : (nodesOf [s]).map Statement.kind =
        s.kind :: (listsRead (.obj fields)).flatMap kinds := by
      simp only [nodesOf, List.append_nil, Statement.nodes_eq, nested, Statement.nodesOf_flatMap,
        List.map_cons, List.map_flatMap]
      rfl
    rw [hnodes, hhere, List.filterMap_cons_some kind]
    exact (List.sublist_append_right _ _).cons_cons _
  | @copies fields kind =>
    rw [listsRead_repeat kind, List.flatMap_singleton]
    refine List.Sublist.trans ?_ (List.sublist_append_right _ _)
    have hrounds : rounds fields = 0 ∨ rounds fields = 1 := by
      have := h fields (if_pos kind)
      omega
    rcases hrounds with h | h <;> rw [h]
    · exact List.nil_sublist _
    · rw [List.replicate_one, List.flatten_singleton]
      exact List.Sublist.refl _

theorem kinds_sublist_counted {vs : List Value} (h : ∀ fields ∈ repeats vs, rounds fields ≤ 1) :
    (kinds vs).Sublist ((counted vs).filterMap kind?) := by
  rw [kinds_eq, counted_eq, List.filterMap_flatMap]
  refine List.Sublist.flatMap_right vs fun v hv => ?_
  have hrepeats : ∀ fields ∈ (listsRead v).flatMap repeats ++ (repeat? v).toList, rounds fields ≤ 1 := by
    intro fields hfields
    rw [repeats_eq] at h
    exact h fields (List.mem_flatMap.mpr ⟨v, hv, hfields⟩)
  have hlists : ∀ vs' ∈ listsRead v, (kinds vs').Sublist ((counted vs').filterMap kind?) :=
    fun vs' hvs' => kinds_sublist_counted fun fields hfields =>
      hrepeats fields (List.mem_append_left _ (List.mem_flatMap.mpr ⟨vs', hvs', hfields⟩))
  have hblock := kinds_outlineBlock fun fields hfields =>
    hrepeats fields (List.mem_append_right _ (Option.mem_toList.mpr hfields))
  rw [List.filterMap_append, List.filterMap_flatMap]
  exact hblock.trans
    (((List.Sublist.flatMap_right _ hlists).trans (listsRead_sublist _ v)).append_left _)
termination_by sizeOf vs
decreasing_by
  exact Nat.lt_trans (sizeOf_lt_of_mem_listsRead vs' hvs') (List.sizeOf_lt_of_mem hv)

end Block

/-! ## Programs -/

theorem Entries.flatMap_put_subperm {α β : Type} (f : String × α → List β) (key : String) (a : α)
    (es : Entries α) : ((put key a es).flatMap f).Subperm (es.flatMap f ++ f (key, a)) := by
  induction es with
  | nil => simp [put, List.Subperm.refl]
  | cons e rest ih =>
    obtain ⟨k, b⟩ := e
    by_cases hk : k = key
    · simp only [put, hk, if_true, List.flatMap_cons]
      refine List.perm_append_comm.subperm.trans (List.Sublist.subperm ?_)
      exact (List.sublist_append_right _ _).append_right _
    · simp only [put, hk, if_false, List.flatMap_cons, List.append_assoc]
      exact (List.subperm_append_left _).mpr ih

namespace Program

open Block
open Json (Value)

def tableKinds (es : Entries Function) : List Kind :=
  es.flatMap fun e => (Statement.nodesOf e.2.body).map Statement.kind

/-- A function that is defined again takes the statements of the earlier one away. -/
theorem tableKinds_declare (table : Table Function) (functions : List (String × List Value)) :
    (tableKinds (Source.declare table functions).entries).Subperm
      (tableKinds table.entries ++ functions.flatMap fun d => kinds d.2) := by
  induction functions generalizing table with
  | nil => simp [Source.declare, List.Subperm.refl]
  | cons d rest ih =>
    obtain ⟨name, blocks⟩ := d
    have hrest := ih (table.insert name ⟨name, (outline blocks).value⟩)
    have hput := Entries.flatMap_put_subperm
      (fun e => (Statement.nodesOf e.2.body).map Statement.kind) name
      (Function.mk name (outline blocks).value) table.entries
    rw [List.flatMap_cons, ← List.append_assoc]
    exact hrest.trans ((List.subperm_append_right _).mpr hput)

def Source.counted (s : Source) : List Json.Fields :=
  Block.counted s.actions ++ s.functions.flatMap fun d => Block.counted d.2

theorem Source.length_counted (s : Source) :
    s.counted.length = count s.actions + countOf s.functions := by
  rw [counted, List.length_append, length_flatMap, Block.length_counted, countOf]
  exact congrArg _ (sumOver_congr fun d _ => Block.length_counted d.2)

def counted (v : Value) : List Json.Fields := (source? v).elim [] Source.counted

theorem kinds_nodes (p : Program) :
    p.nodes.map Statement.kind =
      (Statement.nodesOf p.actions).map Statement.kind ++ tableKinds p.functions.entries := by
  rw [nodes, bodies, List.flatMap_cons, List.map_append, List.flatMap_map, List.map_flatMap]
  rfl

theorem length_nodes (p : Program) : p.nodes.length = p.nodeCount := length_flatMap _ p.bodies

theorem Source.Describes.kinds_subperm {s : Source} {p : Program} (h : s.Describes p)
    (hrounds : ∀ fields ∈ s.repeats, rounds fields ≤ 1) :
    (p.nodes.map Statement.kind).Subperm (s.counted.filterMap kind?) := by
  have hactions : (kinds s.actions).Sublist ((Block.counted s.actions).filterMap kind?) :=
    kinds_sublist_counted fun fields hfields => hrounds fields (List.mem_append_right _ hfields)
  have hfunctions : (s.functions.flatMap fun d => kinds d.2).Sublist
      ((s.functions.flatMap fun d => Block.counted d.2).filterMap kind?) := by
    rw [List.filterMap_flatMap]
    refine List.Sublist.flatMap_right _ fun d hd => kinds_sublist_counted fun fields hfields => ?_
    exact hrounds fields (List.mem_append_left _ (List.mem_flatMap.mpr ⟨d, hd, hfields⟩))
  have htable : (tableKinds p.functions.entries).Subperm (s.functions.flatMap fun d => kinds d.2) := by
    rw [h.functions]
    exact tableKinds_declare .empty s.functions
  rw [kinds_nodes, h.actions, counted, List.filterMap_append]
  exact hactions.subperm.append (htable.trans hfunctions.subperm)

/-- Where no `repeat` block has more than one round, the statements of a program that loads, nested ones and
those of its functions included, come from different objects of its score. -/
theorem nodes_counted_of_loadValue {v : Value} {p : Program} (h : loadValue v = .ok p)
    (hrounds : ∀ fields ∈ repeats v, rounds fields ≤ 1) :
    p.nodeCount ≤ p.blockCount ∧ (counted v).length = p.blockCount ∧
      (p.nodes.map Statement.kind).Subperm ((counted v).filterMap kind?) := by
  obtain ⟨s, hs, hdescribes, -⟩ := source_of_loadValue h
  have hcounted : counted v = s.counted := by rw [counted, hs]; rfl
  have hrepeats : repeats v = s.repeats := by rw [repeats, hs]; rfl
  rw [hrepeats] at hrounds
  have hlength : s.counted.length = p.blockCount := by
    rw [s.length_counted, hdescribes.blockCount]
  have hkinds := hdescribes.kinds_subperm hrounds
  rw [hcounted]
  refine ⟨?_, hlength, hkinds⟩
  calc p.nodeCount = (p.nodes.map Statement.kind).length := by rw [List.length_map, length_nodes]
    _ ≤ (s.counted.filterMap kind?).length := hkinds.length_le
    _ ≤ s.counted.length := List.length_filterMap_le _ _
    _ = p.blockCount := hlength

/-- Lists under both keys of a body, a round that is skipped, and a function that is defined again. -/
def patchwork : Value :=
  .obj [("version", .str "1"),
    ("functions", .arr [
      .obj [("name", .str "weave"), ("body", .arr [turnBlock, turnBlock, turnBlock])],
      .obj [("name", .str "weave"), ("actions", .arr [repeatBlock 1 [turnBlock, repeatBlock 0 [turnBlock]]])]]),
    ("actions", .arr [
      .obj [("type", .str "while"), ("body", .arr [turnBlock])],
      .obj [("type", .str "if"),
        ("condition", .obj [("type", .str "sensor"), ("functionName", .str "hasItem")]),
        ("then", .arr [turnBlock]), ("thenActions", .arr [turnBlock, turnBlock]),
        ("elseIfClauses", .arr [
          .obj [("condition", .obj [("type", .str "and"), ("conditions", .arr [])]),
            ("thenActions", .arr [repeatBlock 1 [turnBlock]])]])]])]

theorem nodes_counted_patchwork :
    ∃ p, loadValue patchwork = .ok p ∧ (∀ fields ∈ repeats patchwork, rounds fields ≤ 1) ∧
      p.nodeCount = 4 ∧ p.blockCount = 15 ∧ p.nodeCount ≤ p.blockCount ∧
      (counted patchwork).length = p.blockCount ∧
      (p.nodes.map Statement.kind).Subperm ((counted patchwork).filterMap kind?) := by
  have hrounds : ∀ fields ∈ repeats patchwork, rounds fields ≤ 1 := by
    have hloops : ∀ l ∈ loops patchwork, l.rounds ≤ 1 := by decide +kernel
    rw [loops_eq] at hloops
    exact fun fields hfields => hloops _ (List.mem_map_of_mem hfields)
  obtain ⟨p, hp⟩ : ∃ p, loadValue patchwork = .ok p := ⟨_, rfl⟩
  have hsizes : (loadValue patchwork).toOption.map (fun p => (p.nodeCount, p.blockCount)) = some (4, 15) := by
    decide +kernel
  rw [hp] at hsizes
  obtain ⟨hnodes, hblocks⟩ := Prod.mk.inj (Option.some.inj hsizes)
  obtain ⟨hle, hlength, hkinds⟩ := nodes_counted_of_loadValue hp hrounds
  exact ⟨p, hp, hrounds, hnodes, hblocks, hle, hlength, hkinds⟩

end Program

end BlockRobot
