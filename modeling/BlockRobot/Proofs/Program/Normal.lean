import BlockRobot.CallGraph
import BlockRobot.Proofs.Json.Reading
import BlockRobot.Proofs.Program.Literals
import BlockRobot.Proofs.Program.WrittenOut
import BlockRobot.Proofs.Run.Reach

/-!
# Loaded programs are normal

Whatever blocks a program is loaded from, its statements are of a form that the rest of the library can
rely on: `Program.Normal`. Loading keeps this up block by block (`Block.ensures_statements`), whether it
reads a block, leaves it out or writes it out. Main statement: `Program.loadValue_normal`.
-/

namespace BlockRobot

/-! ## Colors -/

namespace Block

theorem addColor_normal {colors : List String} (color : String)
    (h : colors.Nodup ∧ "" ∉ colors) : (addColor colors color).Nodup ∧ "" ∉ addColor colors color := by
  simp only [addColor]
  split
  · exact h
  · next hnew =>
    simp only [Bool.or_eq_true, String.isEmpty_iff, List.contains_iff_mem, not_or] at hnew
    refine ⟨?_, ?_⟩
    · rw [List.nodup_append]
      refine ⟨h.1, by simp, fun a ha b hb => ?_⟩
      rintro rfl
      exact hnew.2 (List.mem_singleton.mp hb ▸ ha)
    · rw [List.mem_append, List.mem_singleton, not_or]
      exact ⟨h.2, Ne.symm hnew.1⟩

theorem foldl_addColor_normal (names : List String) {colors : List String}
    (h : colors.Nodup ∧ "" ∉ colors) :
    (names.foldl addColor colors).Nodup ∧ "" ∉ names.foldl addColor colors := by
  induction names generalizing colors with
  | nil => exact h
  | cons name rest ih =>
    rw [List.foldl_cons]
    exact ih (addColor_normal name h)

theorem colorsField_normal (fields : Json.Fields) :
    (colorsField fields).Nodup ∧ "" ∉ colorsField fields := by
  unfold colorsField
  exact foldl_addColor_normal _ ⟨List.nodup_nil, List.not_mem_nil⟩

end Block

/-! ## Statements -/

theorem LoopHead.static?_eq_none {head : LoopHead} (h : head.counter?.isSome = true) :
    head.static? = none := by
  obtain ⟨name, hname⟩ := Option.isSome_iff_exists.mp h
  simp only [static?, hname]

namespace Statement

/-- What holds of each statement of a loaded program, apart from what it nests. -/
def Normal : Statement → Prop
  | .forward count | .putBox count | .takeBox count => count.isFinite = true
  | .turnLeft | .turnRight | .turnBack | .call _ => True
  | .collect count colors => count.isFinite = true ∧ colors.Nodup ∧ "" ∉ colors
  | .repeatRange head _ =>
    head.counter?.isSome = true ∧
      head.first.isFinite = true ∧ head.last.isFinite = true ∧ head.step.isFinite = true
  | .ifElse c _ elseIfs _ => c.isFinite = true ∧ ∀ clause ∈ elseIfs, clause.1.isFinite = true
  | .whileLoop c _ => c.isFinite = true

def AllNormal (ss : List Statement) : Prop := ∀ s ∈ nodesOf ss, s.Normal

theorem AllNormal.nil : AllNormal [] := fun s hs => by cases hs

theorem AllNormal.append {ss ts : List Statement} (hs : AllNormal ss) (ht : AllNormal ts) :
    AllNormal (ss ++ ts) := by
  intro s hmem
  rw [nodesOf_append] at hmem
  exact (List.mem_append.mp hmem).elim (hs s) (ht s)

theorem AllNormal.of_append {ss ts : List Statement} (h : AllNormal (ss ++ ts)) :
    AllNormal ss ∧ AllNormal ts := by
  rw [AllNormal, nodesOf_append, List.forall_mem_append] at h
  exact h

theorem AllNormal.replicate {ss : List Statement} (h : AllNormal ss) (n : Nat) :
    AllNormal (List.replicate n ss).flatten := by
  induction n with
  | zero => exact .nil
  | succ n ih =>
    rw [List.replicate_succ, List.flatten_cons]
    exact h.append ih

theorem AllNormal.single {s : Statement} (hs : s.Normal) (hnested : AllNormal s.nested) :
    AllNormal [s] := by
  intro t ht
  rw [nodesOf, nodes_eq, nodesOf, List.append_nil, List.mem_cons] at ht
  rcases ht with rfl | ht
  · exact hs
  · exact hnested t ht

theorem AllNormal.of_single {s : Statement} (h : AllNormal [s]) : s.Normal ∧ AllNormal s.nested := by
  have hnodes : ∀ t ∈ s :: nodesOf s.nested, t.Normal := by
    intro t ht
    refine h t ?_
    rwa [nodesOf, nodes_eq, nodesOf, List.append_nil]
  exact List.forall_mem_cons.mp hnodes

def ClausesNormal (clauses : List (Condition × List Statement)) : Prop :=
  ∀ clause ∈ clauses, clause.1.isFinite = true ∧ AllNormal clause.2

theorem ClausesNormal.bodies {clauses : List (Condition × List Statement)}
    (h : ClausesNormal clauses) : AllNormal (clauses.flatMap Prod.snd) := by
  induction clauses with
  | nil => exact .nil
  | cons clause rest ih =>
    obtain ⟨hclause, hrest⟩ := List.forall_mem_cons.mp h
    rw [List.flatMap_cons]
    exact hclause.2.append (ih hrest)

theorem ClausesNormal.of_bodies {clauses : List (Condition × List Statement)}
    (hconditions : ∀ clause ∈ clauses, clause.1.isFinite = true)
    (hbodies : AllNormal (clauses.flatMap Prod.snd)) : ClausesNormal clauses := by
  induction clauses with
  | nil => exact fun _ h => by cases h
  | cons clause rest ih =>
    obtain ⟨hclause, hrest⟩ := List.forall_mem_cons.mp hconditions
    obtain ⟨hbody, hbodies⟩ := AllNormal.of_append (List.flatMap_cons ▸ hbodies)
    exact List.forall_mem_cons.mpr ⟨⟨hclause, hbody⟩, ih hrest hbodies⟩

theorem AllNormal.ifElse {c : Condition} {thenBody elseBody : List Statement}
    {elseIfs : List (Condition × List Statement)} (hc : c.isFinite = true)
    (hthen : AllNormal thenBody) (helseIfs : ClausesNormal elseIfs) (helse : AllNormal elseBody) :
    AllNormal [.ifElse c thenBody elseIfs elseBody] :=
  .single ⟨hc, fun clause hclause => (helseIfs clause hclause).1⟩
    ((hthen.append helseIfs.bodies).append helse)

end Statement

/-! ## Loading -/

namespace Block

open Json (Value field?)
open Statement (AllNormal ClausesNormal)

/-- Of all loops only `repeat` blocks have been written out. -/
def Ledger.OnlyRepeats (l : Ledger) : Prop := ∀ k ∈ l.unrolled, k = .repeatTimes

/-- Whatever was loaded before, loading that succeeds gives a result with the property `P`, and it writes
out no loops but `repeat` blocks. -/
def Ensures {α : Type} (P : α → Prop) (load : Load α) : Prop :=
  ∀ (l l' : Ledger) (a : α), load.run l = .ok (a, l') → P a ∧ (l.OnlyRepeats → l'.OnlyRepeats)

namespace Ensures

variable {α β : Type} {P : α → Prop} {Q : β → Prop}

theorem pure {a : α} (h : P a) : Ensures P (Pure.pure a) := by
  intro l l' b hrun
  cases hrun
  exact ⟨h, id⟩

theorem bind {load : Load α} {next : α → Load β} (h : Ensures P load)
    (hnext : ∀ a, P a → Ensures Q (next a)) : Ensures Q (load >>= next) := by
  intro l l' b hrun
  obtain ⟨a, l₁, hload, hrest⟩ := Program.exists_of_run_bind hrun
  obtain ⟨ha, hl₁⟩ := h l l₁ a hload
  obtain ⟨hb, hl'⟩ := hnext a ha l₁ l' b hrest
  exact ⟨hb, fun hl => hl' (hl₁ hl)⟩

theorem ite {c : Prop} [Decidable c] {a b : Load α} (ha : Ensures P a) (hb : Ensures P b) :
    Ensures P (if c then a else b) := by
  split
  · exact ha
  · exact hb

theorem warnAll (ws : List Warning) : Ensures (fun _ => True) (Block.warnAll ws) := by
  intro l l' _ hrun
  cases hrun
  exact ⟨trivial, id⟩

theorem drop (path : Path) (message : String) : Ensures AllNormal (Block.drop path message) :=
  (warnAll _).bind fun _ _ => pure .nil

theorem operandOrOne {fields : Json.Fields} (hfields : Value.fieldsFinite fields = true)
    (path : Path) (key message : String) :
    Ensures (fun e => e.isFinite = true) (Block.operandOrOne path key message fields) := by
  have hone : Expr.one.isFinite = true := by decide +kernel
  unfold Block.operandOrOne
  cases hv : field? key fields with
  | none => exact pure hone
  | some v =>
    by_cases hnull : v = .null
    · subst hnull
      exact pure hone
    · cases he : operand? v with
      | none =>
        simp only [he]
        exact (warnAll _).bind fun _ _ => pure hone
      | some e =>
        simp only [he]
        exact pure (isFinite_operand? v (Value.isFinite_of_field? hfields hv) he)

theorem repeatCount (path : Path) (fields : Json.Fields) :
    Ensures (fun _ => True) (Block.repeatCount path fields) := by
  unfold Block.repeatCount
  split
  · exact pure trivial
  · split
    · exact pure trivial
    · exact (warnAll _).bind fun _ _ => pure trivial

theorem conditionField {fields : Json.Fields} (hfields : Value.fieldsFinite fields = true)
    (path : Path) :
    Ensures (fun c? => ∀ c, c? = some c → c.isFinite = true) (Block.conditionField path fields) := by
  unfold Block.conditionField
  cases hv : field? "condition" fields with
  | none => exact pure fun c hc => by cases hc
  | some v =>
    have hfinite := Value.isFinite_of_field? hfields hv
    exact (warnAll _).bind fun _ _ => pure fun c hc => isFinite_condition _ v hfinite hc

theorem demand (limit : Option Nat) (n : Nat) : Ensures (fun _ => True) (Block.demand limit n) := by
  unfold Block.demand
  cases limit with
  | none => exact pure trivial
  | some k =>
    refine .ite ?_ (pure trivial)
    intro l l' a hrun
    cases hrun

theorem spend (limit : Option Nat) (rounds length : Nat) :
    Ensures (fun _ => True) (Block.spend limit rounds length) := by
  have hcharge (n : Nat) : Ensures (fun _ => True)
      (modify fun l => { l with spent := min (l.spent + n) maxCount } : Load Unit) := by
    intro l l' _ hrun
    cases hrun
    exact ⟨trivial, id⟩
  have hget : Ensures (fun _ => True) (get : Load Ledger) := by
    intro l l' _ hrun
    cases hrun
    exact ⟨trivial, id⟩
  exact (demand limit rounds).bind fun _ _ => (hcharge _).bind fun _ _ =>
    hget.bind fun l _ => demand limit l.spent

theorem writeOut_times (limit : Option Nat) (n : Nat) {body : List Statement}
    (hbody : AllNormal body) :
    Ensures AllNormal (Block.writeOut limit .repeatTimes (.times n) body) := by
  obtain ⟨rounds, hrounds⟩ := Option.isSome_iff_exists.mp (LoopHead.isSome_staticCount_times n)
  have hunroll : Ensures (fun _ => True)
      (modify fun l => { l with unrolled := l.unrolled.insert .repeatTimes } : Load Unit) := by
    intro l l' _ hrun
    cases hrun
    refine ⟨trivial, fun hl k hk => ?_⟩
    exact (KindSet.mem_insert.mp hk).elim id (hl k)
  simp only [Block.writeOut, hrounds]
  exact hunroll.bind fun _ _ => .ite (pure .nil)
    ((spend limit rounds body.length).bind fun _ _ => pure (hbody.replicate rounds))

theorem writeOut_range {head : LoopHead} (kind : Kind) (limit : Option Nat) {body : List Statement}
    (hhead : (Statement.repeatRange head body).Normal) (hbody : AllNormal body) :
    Ensures AllNormal (Block.writeOut limit kind head body) := by
  have hstatic : head.staticCount = none := by
    rw [LoopHead.staticCount, LoopHead.static?_eq_none hhead.1, Option.bind_none]
  simp only [Block.writeOut, hstatic]
  exact pure (.single hhead hbody)

theorem first {P : List α → Prop} {a b : Option (Load (List α))} (hnil : P [])
    (ha : ∀ x ∈ a, Ensures P x) (hb : ∀ x ∈ b, Ensures P x) : Ensures P (orEmpty (a <|> b)) := by
  cases a with
  | some x => exact ha x rfl
  | none =>
    cases b with
    | some x => exact hb x rfl
    | none => exact pure hnil

end Ensures

section

variable (limit : Option Nat)

mutual

theorem ensures_statements (path : Path) (i : Nat) (vs : List Value)
    (hvs : Value.allFinite vs = true) : Ensures AllNormal (statements limit path i vs) := by
  cases vs with
  | nil => exact .pure .nil
  | cons v rest =>
    simp only [Value.allFinite, Bool.and_eq_true] at hvs
    exact (ensures_statement (path.index i) v hvs.1).bind fun _ hhere =>
      (ensures_statements path (i + 1) rest hvs.2).bind fun _ hothers =>
        .pure (hhere.append hothers)

theorem ensures_statement (path : Path) (v : Value) (hv : v.isFinite = true) :
    Ensures AllNormal (statement limit path v) := by
  cases v with
  | obj fields =>
    have hunder (path : Path) (key : String) := ensures_statementsUnder path key fields hv
    have hclauses (key : String) := ensures_clausesUnder path key fields hv
    have hbody := Ensures.first .nil (hunder (path.field "body") "body")
      (hunder (path.field "body") "bodyActions")
    have hcount {f : Expr → Statement} (hf : ∀ e, (f e).Normal ↔ e.isFinite = true)
        (hnested : ∀ e, (f e).nested = []) :
        Ensures AllNormal (do return [f (← countField path fields)]) :=
      (Ensures.operandOrOne hv path "count" _).bind fun e he =>
        .pure (.single ((hf e).mpr he) (by rw [hnested]; exact .nil))
    have hplain {s : Statement} (hs : s.Normal) (hnested : s.nested = []) :
        Ensures AllNormal (pure [s]) :=
      .pure (.single hs (by rw [hnested]; exact .nil))
    simp only [statement]
    cases stringUnder? ["type"] fields with
    | none => exact .drop _ _
    | some kind =>
      refine .ite (hcount (fun _ => Iff.rfl) fun _ => rfl) (.ite (hplain trivial rfl)
        (.ite (hplain trivial rfl) (.ite (hplain trivial rfl) (.ite ?collect
          (.ite (hcount (fun _ => Iff.rfl) fun _ => rfl) (.ite (hcount (fun _ => Iff.rfl) fun _ => rfl)
            (.ite ?times (.ite ?range (.ite ?branch (.ite ?loop (.ite ?call (.drop _ _))))))))))))
      case collect =>
        exact (Ensures.operandOrOne hv path "count" _).bind fun e he =>
          hplain ⟨he, colorsField_normal fields⟩ rfl
      case times =>
        exact (Ensures.repeatCount path fields).bind fun n _ =>
          hbody.bind fun _ hb => .writeOut_times limit n hb
      case range =>
        cases stringUnder? ["variable"] fields with
        | none => exact .drop _ _
        | some name =>
          exact (Ensures.operandOrOne hv path "from" _).bind fun first hfirst =>
            (Ensures.operandOrOne hv path "to" _).bind fun last hlast =>
              (Ensures.operandOrOne hv path "step" _).bind fun step hstep =>
                hbody.bind fun _ hb => .writeOut_range _ limit ⟨rfl, hfirst, hlast, hstep⟩ hb
      case branch =>
        refine (Ensures.conditionField hv path).bind fun c? hc => ?_
        cases c? with
        | none => exact .drop _ _
        | some c =>
          exact (Ensures.first .nil (hunder _ "then") (hunder _ "thenActions")).bind fun _ hthen =>
            (Ensures.first (P := ClausesNormal) (fun _ h => by cases h) (hclauses "elseIf")
              (hclauses "elseIfClauses")).bind fun _ helseIfs =>
                (Ensures.first .nil (hunder _ "else") (hunder _ "elseActions")).bind fun _ helse =>
                  .pure (.ifElse (hc c rfl) hthen helseIfs helse)
      case loop =>
        refine (Ensures.conditionField hv path).bind fun c? hc => ?_
        cases c? with
        | none => exact .drop _ _
        | some c => exact hbody.bind fun _ hb => .pure (.single (hc c rfl) hb)
      case call =>
        cases stringUnder? ["functionName", "name"] fields with
        | none => exact .drop _ _
        | some name => exact hplain trivial rfl
  | _ => exact .drop _ _

theorem ensures_statementsUnder (path : Path) (key : String) (fields : List (String × Value))
    (hfields : Value.fieldsFinite fields = true) :
    ∀ x ∈ statementsUnder? limit path key fields, Ensures AllNormal x := by
  match fields with
  | [] => simp [statementsUnder?]
  | (k, v) :: rest =>
    simp only [Value.fieldsFinite, Bool.and_eq_true] at hfields
    have hrest := ensures_statementsUnder path key rest hfields.2
    cases v with
    | arr items =>
      have hitems := ensures_statements path 0 items hfields.1
      by_cases hk : k = key
      · simpa only [statementsUnder?, hk, if_true, Option.mem_some_iff, forall_eq'] using hitems
      · simpa only [statementsUnder?, hk, if_false] using hrest
    | _ =>
      by_cases hk : k = key
      · simp [statementsUnder?, hk]
      · simpa only [statementsUnder?, hk, if_false] using hrest

theorem ensures_clausesUnder (path : Path) (key : String) (fields : List (String × Value))
    (hfields : Value.fieldsFinite fields = true) :
    ∀ x ∈ clausesUnder? limit path key fields, Ensures ClausesNormal x := by
  match fields with
  | [] => simp [clausesUnder?]
  | (k, v) :: rest =>
    simp only [Value.fieldsFinite, Bool.and_eq_true] at hfields
    have hrest := ensures_clausesUnder path key rest hfields.2
    cases v with
    | arr items =>
      have hitems := ensures_clauses (path.field "elseIf") 0 items hfields.1
      by_cases hk : k = key
      · simpa only [clausesUnder?, hk, if_true, Option.mem_some_iff, forall_eq'] using hitems
      · simpa only [clausesUnder?, hk, if_false] using hrest
    | _ =>
      by_cases hk : k = key
      · simp [clausesUnder?, hk]
      · simpa only [clausesUnder?, hk, if_false] using hrest

theorem ensures_clauses (path : Path) (i : Nat) (vs : List Value)
    (hvs : Value.allFinite vs = true) : Ensures ClausesNormal (clauses limit path i vs) := by
  cases vs with
  | nil => exact .pure fun _ h => by cases h
  | cons v rest =>
    simp only [Value.allFinite, Bool.and_eq_true] at hvs
    refine (ensures_clause (path.index i) v hvs.1).bind fun here hhere =>
      (ensures_clauses path (i + 1) rest hvs.2).bind fun others hothers => .pure ?_
    intro clause hclause
    exact (List.mem_append.mp hclause).elim (hhere clause) (hothers clause)

theorem ensures_clause (path : Path) (v : Value) (hv : v.isFinite = true) :
    Ensures (fun c? => ClausesNormal c?.toList) (clause limit path v) := by
  have hnone : Ensures (fun c? => ClausesNormal c?.toList)
      (pure none : Load (Option (Condition × List Statement))) := .pure fun _ h => by cases h
  cases v with
  | obj fields =>
    have hunder (key : String) := ensures_statementsUnder (path.field "then") key fields hv
    refine (Ensures.conditionField hv path).bind fun c? hc => ?_
    cases c? with
    | none => exact (Ensures.warnAll _).bind fun _ _ => hnone
    | some c =>
      refine (Ensures.first .nil (hunder "then") (hunder "thenActions")).bind fun body hbody =>
        .pure fun clause hclause => ?_
      obtain rfl := List.mem_singleton.mp hclause
      exact ⟨hc c rfl, hbody⟩
  | _ => exact (Ensures.warnAll _).bind fun _ _ => hnone

end

end

end Block

/-! ## Programs -/

structure Program.Normal (p : Program) : Prop where
  statements : ∀ s ∈ p.nodes, s.Normal
  functions : ∀ e ∈ p.functions.entries, e.2.name = e.1 ∧ (Text.trim e.1).isEmpty = false
  unrolled : ∀ k ∈ p.unrolled, k = .repeatTimes

namespace Program

open Block
open Json (Value field?)
open Statement (AllNormal)

def EntryNormal (key : String) (f : Function) : Prop :=
  (f.name = key ∧ (Text.trim key).isEmpty = false) ∧ AllNormal f.body

theorem isFinite_listUnder (keys : List String) {fields : Json.Fields}
    (hfields : Value.fieldsFinite fields = true) :
    Value.allFinite (listUnder keys fields) = true := by
  unfold listUnder
  cases hfind : keys.findSome? fun key => (field? key fields).bind array? with
  | none => rfl
  | some items =>
    obtain ⟨key, -, hitems⟩ := List.exists_of_findSome?_eq_some hfind
    obtain ⟨v, hv, harr⟩ := Option.bind_eq_some_iff.mp hitems
    have hfinite := Value.isFinite_of_field? hfields hv
    cases v with
    | arr items' =>
      cases harr
      exact hfinite
    | _ => cases harr

theorem ensures_loadFunction (limit : Option Nat) (i : Nat) {v : Value} (hv : v.isFinite = true) :
    Ensures (fun r => EntryNormal r.1.name r.1) (loadFunction limit i v) := by
  have hthrow (e : LoadError) : Ensures (fun r => EntryNormal r.1.name r.1)
      (throw e : Load (Function × Nat)) := by
    intro l l' a hrun
    cases hrun
  cases v with
  | obj fields =>
    simp only [loadFunction, bodyBlocks_eq]
    split
    · split
      · exact hthrow _
      · next name _ hblank =>
        have hblocks := isFinite_listUnder ["body", "bodyActions", "actions"] hv
        exact (ensures_statements limit _ 0 _ hblocks).bind fun _ hbody =>
          .pure ⟨⟨rfl, Bool.eq_false_iff.mpr hblank⟩, hbody⟩
    · exact hthrow _
  | _ => exact hthrow _

theorem ensures_loadFunctions (limit : Option Nat) (vs : List Value)
    (hvs : Value.allFinite vs = true) (i n : Nat) {table : Table Function}
    (htable : ∀ e ∈ table.entries, EntryNormal e.1 e.2) :
    Ensures (fun r => ∀ e ∈ r.1.entries, EntryNormal e.1 e.2) (loadFunctions limit i table n vs) := by
  induction vs generalizing i n table with
  | nil => exact .pure htable
  | cons v rest ih =>
    simp only [Value.allFinite, Bool.and_eq_true] at hvs
    refine (ensures_loadFunction limit i hvs.1).bind fun r hr => ?_
    have hinsert : ∀ e ∈ (table.insert r.1.name r.1).entries, EntryNormal e.1 e.2 := by
      intro e he
      rcases Entries.mem_put he with rfl | he
      · exact hr
      · exact htable e he
    have hrest := ih hvs.2 (i + 1) (n + r.2) hinsert
    simp only []
    split
    · exact (Ensures.warnAll _).bind fun _ _ => hrest
    · exact hrest

theorem normal_of_loadValueWith {limit : Option Nat} {v : Value} {p : Program}
    (hv : v.isFinite = true) (h : loadValueWith limit v = .ok p) : p.Normal := by
  obtain ⟨s, hs⟩ := exists_source_of_loadValueWith h
  obtain ⟨fields, version, functionBlocks, rfl, hversion, hblocks, hfunctions, -⟩ :=
    exists_fields_of_source hs
  -- The lists of the program are lists of the value.
  have hlist {key : String} {items : List Value} (h : requireList key fields = .ok items) :
      Value.allFinite items = true := by
    unfold requireList at h
    split at h
    · next hfield =>
      cases h
      exact Value.isFinite_of_field? hv hfield
    · cases h
    · cases h
  have hlist' : Value.allFinite functionBlocks = true := by
    unfold allowList at hfunctions
    split at hfunctions
    · cases hfunctions
      rfl
    · exact hlist hfunctions
  have hempty : ∀ e ∈ (Table.empty : Table Function).entries, EntryNormal e.1 e.2 := by
    intro e he
    cases he
  have hload : Ensures (fun r => (∀ e ∈ r.1.1.entries, EntryNormal e.1 e.2) ∧ AllNormal r.2)
      (loadLists limit functionBlocks s.actions) :=
    (ensures_loadFunctions limit functionBlocks hlist' 0 _ hempty).bind
      fun _ hfunctions => (ensures_statements limit _ 0 _ (hlist hblocks)).bind
        fun _ hactions => .pure ⟨hfunctions, hactions⟩
  rw [loadValueWith_eq hversion hblocks hfunctions] at h
  obtain ⟨⟨r, l⟩, hrun, hp⟩ := exists_of_bind_ok h
  obtain ⟨⟨hentries, hactions⟩, hunrolled⟩ := hload _ _ _ hrun
  cases hp
  refine ⟨fun t ht => ?_, fun e he => (hentries e he).1, hunrolled fun k hk => by cases hk⟩
  obtain ⟨body, hbody, ht⟩ := List.mem_flatMap.mp ht
  rcases List.mem_cons.mp hbody with rfl | hbody
  · exact hactions t ht
  · obtain ⟨e, he, rfl⟩ := List.mem_map.mp hbody
    exact (hentries e he).2 t ht

theorem normal_of_load {source : String} {p : Program} (h : load source = .ok p) : p.Normal := by
  unfold load at h
  split at h
  · next hread => exact normal_of_loadValueWith (Json.isFinite_of_read hread) h
  · cases h

theorem Normal.callGraph {p : Program} (h : p.Normal) : ∃ g, CallGraph.ofProgram p = .ok g := by
  have hnone : CallGraph.mismatch? p.functions = none := by
    simp only [CallGraph.mismatch?, Option.map_eq_none_iff, List.find?_eq_none]
    intro e he
    simp [(h.functions e he).1]
  simp only [CallGraph.ofProgram, hnone]
  exact ⟨_, rfl⟩

theorem Normal.not_isStatic {p : Program} (h : p.Normal) {head : LoopHead} {body : List Statement}
    (hs : .repeatRange head body ∈ p.nodes) : head.isStatic = false := by
  rw [LoopHead.isStatic, LoopHead.static?_eq_none (h.statements _ hs).1]
  rfl

/-- What loads is normal. So no run comes to a loop that could be written out, and the call graph can be
built. -/
theorem loadValue_normal {v : Value} {p : Program} (hv : v.isFinite = true)
    (h : loadValue v = .ok p) :
    p.Normal ∧
    (∀ head body, .repeatRange head body ∈ p.nodes → head.isStatic = false) ∧
    (∀ limits w as m w', Machine.Steps p (.new p limits) w as m w' →
      m.Queued fun s => ∀ head body, s = .repeatRange head body → head.isStatic = false) ∧
    ∃ g, CallGraph.ofProgram p = .ok g := by
  have hnormal : p.Normal := normal_of_loadValueWith hv h
  refine ⟨hnormal, fun head body hs => hnormal.not_isStatic hs, ?_, hnormal.callGraph⟩
  intro limits w as m w' hsteps s env hs head body heq
  have hqueued : m.Queued (· ∈ p.nodes) :=
    hsteps.queued (Machine.hereditary_nodes p)
      (Machine.queued_new fun s hs => mem_nodes_of_body List.mem_cons_self hs)
  exact hnormal.not_isStatic (heq ▸ hqueued s env hs)

/-- Spells colors and numbers in several ways, and nests a loop with a variable in one without. -/
def medley : Value :=
  .obj [("version", .str "1"),
    ("functions", .arr [.obj [("name", .str "tidy"), ("bodyActions", .arr [
      .obj [("type", .str "collect"), ("count", .str " 2e0 "), ("color", .str "Red"),
        ("colors", .arr [.str "red ", .str " ", .str "BLUE"])]])]]),
    ("actions", .arr [repeatBlock 2 [
      .obj [("type", .str "repeatRange"), ("variable", .str "i"), ("to", .num (.int 3)), ("body", .arr [
        .obj [("type", .str "callFunction"), ("name", .str "tidy")]])]]])]

theorem medley_normal :
    medley.isFinite = true ∧ ∃ p, loadValue medley = .ok p ∧ p.Normal ∧
      (∀ head body, .repeatRange head body ∈ p.nodes → head.isStatic = false) ∧
      ∃ g, CallGraph.ofProgram p = .ok g := by
  have hv : medley.isFinite = true := by decide +kernel
  obtain ⟨p, hp⟩ := exists_of_isOk (x := loadValue medley) (by decide +kernel)
  obtain ⟨hnormal, hstatic, -, hgraph⟩ := loadValue_normal hv hp
  exact ⟨hv, p, hp, hnormal, hstatic, hgraph⟩

end Program

end BlockRobot
