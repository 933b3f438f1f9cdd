import BlockRobot.Program.Tree
import BlockRobot.Proofs.Program.Normal

/-!
# Reading back the tree form of a program

The tree form of a program reads back as the program, with its functions by ascending name. The numbers in
it have to be finite, since there is no other number in a JSON value; those of a program that loads are.
Main statement: `Program.load_roundTrips`.
-/

namespace BlockRobot

namespace Tree

open Json (Value)
open Statement (AllNormal ClausesNormal)

/-! ## Fields -/

theorem required_cons {α : Type} (name key : String) (value : Json.Decoder α) (v : Value)
    (fields : Json.Fields) :
    Json.required name value ((key, v) :: fields) =
      if key = name then value v else Json.required name value fields := by
  simp only [Json.required, Json.field?, Entries.get?]
  split <;> rfl

theorem optional_cons {α : Type} (name key : String) (value : Json.Decoder α) (v : Value)
    (fields : Json.Fields) :
    Json.optional name value ((key, v) :: fields) =
      if key = name then Json.nullable value v else Json.optional name value fields := by
  by_cases h : key = name <;> simp [Json.optional, Json.field?, Entries.get?, h]

theorem nullable_orNull (s? : Option String) : Json.nullable Json.string (orNull s?) = some s? := by
  cases s? <;> rfl

theorem mapM_map {α β : Type} {read : β → Option α} {write : α → β} {as : List α}
    (h : ∀ a ∈ as, read (write a) = some a) : (as.map write).mapM read = some as := by
  induction as with
  | nil => rfl
  | cons a rest ih =>
    obtain ⟨ha, hrest⟩ := List.forall_mem_cons.mp h
    simp [ha, ih hrest]

theorem list_map {α : Type} {value : Json.Decoder α} {write : α → Value} {as : List α}
    (h : ∀ a ∈ as, value (write a) = some a) : Json.list value (.arr (as.map write)) = some as :=
  mapM_map h

theorem table_map {α : Type} {value : Json.Decoder α} {write : α → Value} {t : Table α}
    (h : ∀ e ∈ t.entries, value (write e.2) = some e.2) :
    Json.table value (.obj (t.entries.map fun e => (e.1, write e.2))) = some t := by
  rw [Json.table, mapM_map, Option.map_some, Table.ofEntries_entries]
  intro e he
  rw [h e he, Option.map_some]

/-! ## Expressions and conditions -/

theorem expr?_ofExpr (e : Expr) (h : e.isFinite = true) (inside : Bool) :
    expr? inside (ofExpr e) = some e := by
  induction e generalizing inside with
  | number x =>
    have hx : Value.ofNumber (.real x) = .num (.real x) := if_pos h
    simp [ofExpr, node, expr?, required_cons, type?, hx, Json.double, Json.Number.toFloat]
  | var name => simp [ofExpr, node, expr?, required_cons, type?, Json.string]
  | query name argument =>
    simp [ofExpr, node, expr?, required_cons, optional_cons, type?, Json.string, nullable_orNull]
  | arithmetic op left right ihl ihr =>
    simp only [Expr.isFinite, Bool.and_eq_true] at h
    simp [ofExpr, node, expr?, exprUnder?, required_cons, type?, symbol, Json.tag,
      ArithOp.ofSymbol?_symbol, ihl h.1, ihr h.2]

mutual

theorem condition?_ofCondition (c : Condition) (h : c.isFinite = true) :
    condition? (ofCondition c) = some c := by
  match c with
  | .comparison left op right =>
    simp only [Condition.isFinite, Bool.and_eq_true] at h
    simp [ofCondition, node, condition?, exprUnder?, required_cons, type?, symbol, Json.tag,
      CompareOp.ofSymbol?_symbol, expr?_ofExpr, h.1, h.2]
  | .and cs =>
    have hcs := conditions?_ofConditions cs h
    simp [ofCondition, node, condition?, conditionsUnder?, required_cons, type?, hcs]
  | .or cs =>
    have hcs := conditions?_ofConditions cs h
    simp [ofCondition, node, condition?, conditionsUnder?, required_cons, type?, hcs]
  | .sensor name check =>
    simp [ofCondition, node, condition?, required_cons, type?, Json.string, Json.boolean]

theorem conditions?_ofConditions (cs : List Condition) (h : Condition.allFinite cs = true) :
    conditions? (ofConditions cs) = some cs := by
  match cs with
  | [] => rfl
  | c :: rest =>
    simp only [Condition.allFinite, Bool.and_eq_true] at h
    simp [ofConditions, conditions?, condition?_ofCondition c h.1, conditions?_ofConditions rest h.2]

end

/-! ## Statements -/

mutual

theorem statement?_ofStatement (s : Statement) (inside : Bool) (h : AllNormal [s]) :
    statement? inside (ofStatement s) = some s := by
  obtain ⟨hs, hnested⟩ := h.of_single
  match s with
  | .forward count | .putBox count | .takeBox count =>
    have hcount := expr?_ofExpr count hs true
    simp [ofStatement, node, statement?, exprUnder?, required_cons, type?, hcount]
  | .turnLeft | .turnRight | .turnBack => simp [ofStatement, node, statement?, required_cons, type?]
  | .collect count colors =>
    have hcount := expr?_ofExpr count hs.1 true
    have hcolors : Json.list Json.string (texts colors) = some colors := list_map fun _ _ => rfl
    simp [ofStatement, node, statement?, exprUnder?, required_cons, type?, hcount, hcolors]
  | .repeatRange head body =>
    have hbody := statements?_ofStatements body true hnested
    simp [ofStatement, node, loopFields, statement?, statementsUnder?, loopHead?, required_cons,
      optional_cons, type?, nullable_orNull, expr?_ofExpr, hs.2.1, hs.2.2.1, hs.2.2.2, hbody]
  | .ifElse c thenBody elseIfs elseBody =>
    obtain ⟨hbodies, helse⟩ := hnested.of_append
    obtain ⟨hthen, hclauses⟩ := hbodies.of_append
    have hthenBody := statements?_ofStatements thenBody true hthen
    have helseIfs := clauses?_ofClauses elseIfs (.of_bodies hs.2 hclauses)
    have helseBody := statements?_ofStatements elseBody true helse
    simp [ofStatement, node, statement?, statementsUnder?, clausesUnder?, required_cons, type?,
      condition?_ofCondition c hs.1, hthenBody, helseIfs, helseBody]
  | .whileLoop c body =>
    have hc := condition?_ofCondition c hs
    have hbody := statements?_ofStatements body true hnested
    simp [ofStatement, node, statement?, statementsUnder?, required_cons, type?, hc, hbody]
  | .call name => simp [ofStatement, node, statement?, required_cons, type?, Json.string]

theorem statements?_ofStatements (ss : List Statement) (inside : Bool) (h : AllNormal ss) :
    statements? inside (ofStatements ss) = some ss := by
  match ss with
  | [] => rfl
  | s :: rest =>
    have hparts : AllNormal ([s] ++ rest) := h
    obtain ⟨hs, hrest⟩ := hparts.of_append
    simp [ofStatements, statements?, statement?_ofStatement s inside hs,
      statements?_ofStatements rest inside hrest]

theorem clauses?_ofClauses (clauses : List (Condition × List Statement)) (h : ClausesNormal clauses) :
    clauses? (ofClauses clauses) = some clauses := by
  match clauses with
  | [] => rfl
  | (c, body) :: rest =>
    obtain ⟨⟨hc, hbody⟩, hrest⟩ := List.forall_mem_cons.mp h
    simp [ofClauses, clauses?, clause?, statementsUnder?, required_cons, condition?_ofCondition c hc,
      statements?_ofStatements body true hbody, clauses?_ofClauses rest hrest]

end

/-! ## Programs -/

theorem function?_ofFunction (f : Function) (h : AllNormal f.body) : function? (ofFunction f) = some f := by
  have hbody := statements?_ofStatements f.body false h
  simp [ofFunction, function?, Json.record, Json.occurrences, required_cons, Json.string, statementList,
    hbody]

theorem warning?_ofWarning (w : Warning) : warning? (ofWarning w) = some w := by
  simp [ofWarning, warning?, Json.record, Json.occurrences, required_cons, Json.string]

theorem kindSet_kinds (s : KindSet) : kindSet (kinds s) = some s := by
  have hlist : Json.list kind (kinds s) = some s.toList := list_map fun k _ => Kind.ofTag?_tag k
  rw [kindSet, hlist, Option.map_some, KindSet.ofList_toList]

theorem program?_ofProgram {p : Program} (hp : p.Normal) :
    program? (ofProgram p) = some { p with functions := p.functions.sorted } := by
  have hbodies {body : List Statement} (hbody : body ∈ p.bodies) : AllNormal body :=
    fun s hs => hp.statements s (List.mem_flatMap.mpr ⟨body, hbody, hs⟩)
  have hactions := statements?_ofStatements p.actions false (hbodies List.mem_cons_self)
  have hfunctions : Json.table function? (.obj (p.functions.entries.map fun e => (e.1, ofFunction e.2))) =
      some p.functions :=
    table_map fun e he =>
      function?_ofFunction e.2 (hbodies (List.mem_cons_of_mem _ (List.mem_map.mpr ⟨e, he, rfl⟩)))
  have hwarnings : Json.list warning? (.arr (p.warnings.map ofWarning)) = some p.warnings :=
    list_map fun w _ => warning?_ofWarning w
  simp [ofProgram, program?, Json.record, Json.occurrences, required_cons, optional_cons, Json.string,
    statementList, nullable_orNull, hfunctions, hactions, kindSet_kinds, hwarnings, Json.size, nat]

end Tree

/-- A program that loads comes back from its tree form as it is, but for the order of its functions. -/
theorem Program.load_roundTrips {source : String} {p : Program} (h : Program.load source = .ok p) :
    Tree.program? (Tree.ofProgram p) = some { p with functions := p.functions.sorted } ∧
    p.functions.sorted.entries.Perm p.functions.entries ∧
    ∀ name, p.functions.sorted.get? name = p.functions.get? name :=
  ⟨Tree.program?_ofProgram (normal_of_load h), p.functions.perm_sorted, p.functions.get?_sorted⟩

/-- A loop that collects, and two functions out of order. -/
def tour : String :=
  "\x7b\"version\":\"1\",\"functions\":[\x7b\"name\":\"b\"\x7d,\x7b\"name\":\"a\"\x7d]," ++
    "\"actions\":[\x7b\"type\":\"repeatRange\",\"variable\":\"i\",\"body\":" ++
    "[\x7b\"type\":\"collect\",\"color\":\"red\"\x7d]\x7d]\x7d"

theorem tour_roundTrips :
    ∃ p, Program.load tour = .ok p ∧ p.functions.keys = ["b", "a"] ∧
      Tree.program? (Tree.ofProgram p) = some { p with functions := p.functions.sorted } ∧
      p.functions.sorted.entries.Perm p.functions.entries := by
  have hload : ((Program.load tour).toOption.any fun p => p.functions.keys == ["b", "a"]) = true := by
    decide +kernel
  obtain ⟨p, hp, hkeys⟩ := Program.exists_of_any hload
  obtain ⟨hread, hperm, -⟩ := Program.load_roundTrips hp
  exact ⟨p, hp, beq_iff_eq.mp hkeys, hread, hperm⟩

end BlockRobot
