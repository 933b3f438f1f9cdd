import BlockRobot.Proofs.Program.WrittenOut
import Mathlib.Data.List.Basic
import Mathlib.Tactic.SplitIfs

/-!
# The blocks that loading comes to

Of a block that it leaves out, loading reads nothing more; of the others it goes on to the lists in
`Block.listsRead`. What a block stands for is made of what these lists stand for (`Block.makes_outlineBlock`),
and `Block.repeats` lists the `repeat` blocks on the way, which are the loops that loading writes out
(`Block.loops_outline`).
-/

namespace BlockRobot

theorem Statement.kind_ne_repeatTimes (s : Statement) : s.kind ≠ .repeatTimes := by
  cases s <;> intro h <;> cases h

namespace Block

open Json (Value field?)

def kindOf? (type : String) : Option Kind :=
  if type = "moveForward" then some .forward
  else if type = "turnAround" then some .turnBack
  else Kind.ofTag? type

def kind? (fields : Json.Fields) : Option Kind := (stringUnder? ["type"] fields).bind kindOf?

def bodyOf (fields : Json.Fields) : List Value := listUnder ["body", "bodyActions"] fields

def clauseList? : Value → Option (List Value)
  | .obj fields =>
    if (conditionValue fields).isSome then some (listUnder ["then", "thenActions"] fields) else none
  | _ => none

/-- The lists of blocks that loading goes on to, in order. -/
def listsRead : Value → List (List Value)
  | .obj fields =>
    match stringUnder? ["type"] fields with
    | none => []
    | some kind =>
      if kind = "repeat" then [bodyOf fields]
      else if kind = "repeatRange" then
        if (stringUnder? ["variable"] fields).isSome then [bodyOf fields] else []
      else if kind = "if" then
        if (conditionValue fields).isSome then
          listUnder ["then", "thenActions"] fields ::
            ((listUnder clauseKeys fields).filterMap clauseList? ++
              [listUnder ["else", "elseActions"] fields])
        else []
      else if kind = "while" then
        if (conditionValue fields).isSome then [bodyOf fields] else []
      else []
  | _ => []

theorem listsRead_cases (fields : Json.Fields) :
    listsRead (.obj fields) = [] ∨ listsRead (.obj fields) = [bodyOf fields] ∨
      listsRead (.obj fields) = listUnder ["then", "thenActions"] fields ::
        ((listUnder clauseKeys fields).filterMap clauseList? ++
          [listUnder ["else", "elseActions"] fields]) := by
  simp only [listsRead]
  split
  · exact .inl rfl
  · split_ifs <;> simp only [true_or, or_true]

/-! ## Sizes -/

theorem sizeOf_listUnder_lt (keys : List String) (fields : Json.Fields) :
    sizeOf (listUnder keys fields) < sizeOf (Value.obj fields) := by
  have hobj : sizeOf (Value.obj fields) = 1 + sizeOf fields := Value.obj.sizeOf_spec fields
  unfold listUnder
  cases h : keys.findSome? fun key => (field? key fields).bind array? with
  | none =>
    have hpos : sizeOf fields ≠ 0 := by cases fields <;> simp
    simp only [Option.getD_none, List.nil.sizeOf_spec]
    omega
  | some items =>
    obtain ⟨key, _, hkey⟩ := List.exists_of_findSome?_eq_some h
    obtain ⟨v, hv, harray⟩ := Option.bind_eq_some_iff.mp hkey
    have hmem := List.sizeOf_lt_of_mem (Entries.mem_of_get? hv)
    cases v with
    | arr items' =>
      cases harray
      simp only [Prod.mk.sizeOf_spec, Value.arr.sizeOf_spec] at hmem
      simp only [Option.getD_some]
      omega
    | _ => cases harray

theorem sizeOf_lt_of_clauseList {v : Value} {vs : List Value} (h : clauseList? v = some vs) :
    sizeOf vs < sizeOf v := by
  cases v with
  | obj fields =>
    simp only [clauseList?] at h
    split at h
    · cases h
      exact sizeOf_listUnder_lt _ fields
    · cases h
  | _ => cases h

theorem sizeOf_lt_of_mem_listsRead {v : Value} :
    ∀ vs ∈ listsRead v, sizeOf vs < sizeOf v := by
  intro vs hvs
  cases v with
  | obj fields =>
    rcases listsRead_cases fields with h | h | h <;> rw [h] at hvs
    · cases hvs
    · rw [List.mem_singleton.mp hvs]
      exact sizeOf_listUnder_lt _ fields
    · rcases List.mem_cons.mp hvs with rfl | hvs
      · exact sizeOf_listUnder_lt _ fields
      rcases List.mem_append.mp hvs with hvs | hvs
      · obtain ⟨clause, hclause, hlist⟩ := List.mem_filterMap.mp hvs
        calc sizeOf vs < sizeOf clause := sizeOf_lt_of_clauseList hlist
          _ < sizeOf (listUnder clauseKeys fields) := List.sizeOf_lt_of_mem hclause
          _ < sizeOf (Value.obj fields) := sizeOf_listUnder_lt clauseKeys fields
      · rw [List.mem_singleton.mp hvs]
        exact sizeOf_listUnder_lt _ fields
  | _ => cases hvs

/-! ## What a block stands for -/

theorem eq_repeat_of_kind? {fields : Json.Fields} (h : kind? fields = some .repeatTimes) :
    stringUnder? ["type"] fields = some "repeat" := by
  obtain ⟨type, htype, hkind⟩ := Option.bind_eq_some_iff.mp h
  unfold kindOf? at hkind
  split at hkind
  · cases hkind
  · split at hkind
    · cases hkind
    · have htag : (Kind.repeatTimes.tag == type) = true :=
        List.find?_some (p := fun k : Kind => k.tag == type) hkind
      rw [htype, ← beq_iff_eq.mp htag]
      rfl

theorem listsRead_repeat {fields : Json.Fields} (h : kind? fields = some .repeatTimes) :
    listsRead (.obj fields) = [bodyOf fields] := by
  simp only [listsRead, eq_repeat_of_kind? h, if_true]

theorem listsRead_plain {fields : Json.Fields} {type : String}
    (htype : stringUnder? ["type"] fields = some type)
    (hplain : type ∉ ["repeat", "repeatRange", "if", "while"]) : listsRead (.obj fields) = [] := by
  simp only [List.mem_cons, List.not_mem_nil, or_false, not_or] at hplain
  obtain ⟨hrepeat, hrange, hif, hwhile⟩ := hplain
  simp only [listsRead, htype, hrepeat, hrange, hif, hwhile, if_false]

/-- What loading makes of a block, given what it makes of the lists that it goes on to. -/
inductive Makes : Value → Outline (List Statement) → Prop
  | nothing {v : Value} (skips : listsRead v = []) : Makes v (pure [])
  | statement {fields : Json.Fields} {s : Statement} (kind : kind? fields = some s.kind)
      (nested : s.nested = (listsRead (.obj fields)).flatMap fun vs => (outline vs).value) :
      Makes (.obj fields) ⟨[s], (listsRead (.obj fields)).flatMap fun vs => (outline vs).loops⟩
  | copies {fields : Json.Fields} (kind : kind? fields = some .repeatTimes) :
      Makes (.obj fields) ⟨(List.replicate (rounds fields) (outline (bodyOf fields)).value).flatten,
        (outline (bodyOf fields)).loops ++ [⟨rounds fields, (outline (bodyOf fields)).value⟩]⟩

theorem Makes.ite {v : Value} {c : Prop} [Decidable c] {x y : Outline (List Statement)}
    (hx : c → Makes v x) (hy : ¬ c → Makes v y) : Makes v (if c then x else y) := by
  split
  · next h => exact hx h
  · next h => exact hy h

theorem outlineClause_cases (v : Value) :
    (clauseList? v = none ∧ outlineClause v = pure none) ∨
      ∃ c vs, clauseList? v = some vs ∧
        outlineClause v = ⟨some (c, (outline vs).value), (outline vs).loops⟩ := by
  cases v with
  | obj fields =>
    simp only [clauseList?, outlineClause, orNone_outlineUnder]
    cases conditionValue fields with
    | none => exact .inl ⟨rfl, rfl⟩
    | some c =>
      refine .inr ⟨c, listUnder ["then", "thenActions"] fields, rfl, ?_⟩
      ext1 <;> simp
  | _ => exact .inl ⟨rfl, rfl⟩

theorem outlineClauses_eq (clauses : List Value) :
    (outlineClauses clauses).value.flatMap Prod.snd =
        (clauses.filterMap clauseList?).flatMap (fun vs => (outline vs).value) ∧
      (outlineClauses clauses).loops =
        (clauses.filterMap clauseList?).flatMap fun vs => (outline vs).loops := by
  induction clauses with
  | nil => exact ⟨rfl, rfl⟩
  | cons clause rest ih =>
    obtain ⟨hvalue, hloops⟩ := ih
    rcases outlineClause_cases clause with ⟨hnone, hclause⟩ | ⟨c, vs, hsome, hclause⟩
    · rw [List.filterMap_cons_none hnone]
      simp [outlineClauses, hclause, hvalue, hloops]
    · rw [List.filterMap_cons_some hsome]
      simp [outlineClauses, hclause, hvalue, hloops]

theorem outline_return {α β : Type} (x : Outline α) (f : α → β) :
    (do return f (← x)) = (⟨f x.value, x.loops⟩ : Outline β) := by
  ext1 <;> simp

theorem written_variable (name : String) (first last step : Expr) (body : List Statement) :
    written ⟨some name, first, last, step⟩ body =
      pure [.repeatRange ⟨some name, first, last, step⟩ body] := rfl

theorem makes_branches {fields : Json.Fields} {thenBlocks clauses elseBlocks : List Value}
    (c : Condition) (kind : kind? fields = some .ifElse)
    (reads : listsRead (.obj fields) = thenBlocks :: (clauses.filterMap clauseList? ++ [elseBlocks])) :
    Makes (.obj fields) (do
      let thenBody ← outline thenBlocks
      let elseIfs ← outlineClauses clauses
      let elseBody ← outline elseBlocks
      return [.ifElse c thenBody elseIfs elseBody]) := by
  obtain ⟨hvalue, hloops⟩ := outlineClauses_eq clauses
  have hnested : (Statement.ifElse c (outline thenBlocks).value (outlineClauses clauses).value
      (outline elseBlocks).value).nested =
      (listsRead (.obj fields)).flatMap fun vs => (outline vs).value := by
    simp [Statement.nested, reads, hvalue]
  have h := Makes.statement kind hnested
  rw [reads, List.flatMap_cons, List.flatMap_append, ← hloops, List.flatMap_singleton] at h
  have hout : (do
      let thenBody ← outline thenBlocks
      let elseIfs ← outlineClauses clauses
      let elseBody ← outline elseBlocks
      return [Statement.ifElse c thenBody elseIfs elseBody]) =
      (⟨[.ifElse c (outline thenBlocks).value (outlineClauses clauses).value (outline elseBlocks).value],
        (outline thenBlocks).loops ++ ((outlineClauses clauses).loops ++ (outline elseBlocks).loops)⟩ :
          Outline (List Statement)) := by
    ext1 <;> simp
  rw [hout]
  exact h

/-- A block becomes one statement, or none if it is left out, or as many copies of its body as it has
rounds. -/
theorem makes_outlineBlock (v : Value) : Makes v (outlineBlock v) := by
  cases v with
  | obj fields =>
    simp only [outlineBlock, orNone_outlineUnder, orNone_outlineClausesUnder]
    cases htype : stringUnder? ["type"] fields with
    | none => exact .nothing (by simp only [listsRead, htype])
    | some type =>
      have hkind : kind? fields = kindOf? type := by rw [kind?, htype]; rfl
      have hplain {s : Statement} (hskips : type ∉ ["repeat", "repeatRange", "if", "while"])
          (hs : kindOf? type = some s.kind) (hnested : s.nested = []) :
          Makes (.obj fields) (pure [s]) := by
        have h := Makes.statement (hkind.trans hs)
        rw [listsRead_plain htype hskips] at h
        exact h hnested
      have hbody {s : List Statement → Statement} (hreads : listsRead (.obj fields) = [bodyOf fields])
          (hs : ∀ body, kindOf? type = some (s body).kind) (hnested : ∀ body, (s body).nested = body) :
          Makes (.obj fields) (do return [s (← outline (bodyOf fields))]) := by
        have h := Makes.statement (hkind.trans (hs (outline (bodyOf fields)).value))
        rw [hreads, List.flatMap_singleton, List.flatMap_singleton] at h
        rw [outline_return (outline (bodyOf fields)) fun body => [s body]]
        exact h (hnested _)
      refine .ite ?forward fun _ => .ite ?left fun _ => .ite ?right fun _ => .ite ?back fun _ =>
        .ite ?collect fun _ => .ite ?putBox fun _ => .ite ?takeBox fun _ => .ite ?times fun hrepeat =>
        .ite ?range fun hrange => .ite ?branch fun hif => .ite ?loop fun hwhile => .ite ?call fun _ => ?other
      case forward =>
        intro h
        have htype' : type = "forward" ∨ type = "moveForward" := by simpa using h
        rcases htype' with rfl | rfl <;> exact hplain (by decide) rfl rfl
      case left => rintro rfl; exact hplain (by decide) rfl rfl
      case right => rintro rfl; exact hplain (by decide) rfl rfl
      case back =>
        intro h
        have htype' : type = "turnBack" ∨ type = "turnAround" := by simpa using h
        rcases htype' with rfl | rfl <;> exact hplain (by decide) rfl rfl
      case collect => rintro rfl; exact hplain (by decide) rfl rfl
      case putBox => rintro rfl; exact hplain (by decide) rfl rfl
      case takeBox => rintro rfl; exact hplain (by decide) rfl rfl
      case times =>
        rintro rfl
        have hcopies : outline (bodyOf fields) >>= written (.times (repeatValue fields)) =
            ⟨(List.replicate (rounds fields) (outline (bodyOf fields)).value).flatten,
              (outline (bodyOf fields)).loops ++ [⟨rounds fields, (outline (bodyOf fields)).value⟩]⟩ := by
          ext1 <;> simp [written, staticCount_eq_rounds]
        change Makes _ (outline (bodyOf fields) >>= written (.times (repeatValue fields)))
        rw [hcopies]
        exact .copies hkind
      case range =>
        rintro rfl
        cases hname : stringUnder? ["variable"] fields with
        | none => exact .nothing (by simp [listsRead, htype, hname])
        | some name =>
          simp only [written_variable]
          exact hbody (by simp [listsRead, htype, hname]) (fun _ => rfl) fun _ => rfl
      case branch =>
        rintro rfl
        cases hc : conditionValue fields with
        | none => exact .nothing (by simp [listsRead, htype, hc])
        | some c =>
          exact makes_branches c hkind (by simp only [listsRead, htype, hc]; rfl)
      case loop =>
        rintro rfl
        cases hc : conditionValue fields with
        | none => exact .nothing (by simp [listsRead, htype, hc])
        | some c => exact hbody (by simp [listsRead, htype, hc]) (fun _ => rfl) fun _ => rfl
      case call =>
        rintro rfl
        cases hname : stringUnder? ["functionName", "name"] fields with
        | none => exact .nothing (listsRead_plain htype (by decide))
        | some name => exact hplain (by decide) rfl rfl
      case other =>
        exact .nothing (listsRead_plain htype (by simp [hrepeat, hrange, hif, hwhile]))
  | _ => exact .nothing rfl

/-! ## The repeat blocks -/

def repeat? : Value → Option Json.Fields
  | .obj fields => if kind? fields = some .repeatTimes then some fields else none
  | _ => none

/-- The `repeat` blocks that loading comes to, each once and after those in its body. -/
def repeats (vs : List Value) : List Json.Fields :=
  vs.flatMap fun v =>
    (listsRead v).attach.flatMap (fun vs' => repeats vs'.1) ++ (repeat? v).toList
termination_by sizeOf vs
decreasing_by
  exact Nat.lt_trans (sizeOf_lt_of_mem_listsRead vs'.1 vs'.2) (List.sizeOf_lt_of_mem ‹_›)

theorem repeats_eq (vs : List Value) :
    repeats vs = vs.flatMap fun v => (listsRead v).flatMap repeats ++ (repeat? v).toList := by
  rw [repeats]
  simp only [List.flatMap_subtype, List.unattach_attach]

theorem repeat?_of_skips {v : Value} (h : listsRead v = []) : repeat? v = none := by
  cases v with
  | obj fields =>
    refine if_neg fun hkind => ?_
    rw [listsRead_repeat hkind] at h
    cases h
  | _ => rfl

theorem loops_outline_eq_flatMap (vs : List Value) :
    (outline vs).loops = vs.flatMap fun v => (outlineBlock v).loops := by
  induction vs with
  | nil => rfl
  | cons v rest ih =>
    simp only [outline, Outline.loops_bind, Outline.loops_pure, List.append_nil, List.flatMap_cons, ih]

def writtenLoop (fields : Json.Fields) : WrittenLoop := ⟨rounds fields, (outline (bodyOf fields)).value⟩

theorem loops_outlineBlock (v : Value) :
    (outlineBlock v).loops =
      (listsRead v).flatMap (fun vs => (outline vs).loops) ++ (repeat? v).toList.map writtenLoop := by
  have h := makes_outlineBlock v
  generalize outlineBlock v = x at h
  cases h with
  | nothing skips => rw [skips, repeat?_of_skips skips]; rfl
  | @statement fields s kind nested =>
    have hnone : repeat? (.obj fields) = none :=
      if_neg fun h => s.kind_ne_repeatTimes (Option.some.inj (kind.symm.trans h))
    rw [hnone, Option.toList_none, List.map_nil, List.append_nil]
  | @copies fields kind =>
    rw [listsRead_repeat kind, List.flatMap_singleton, repeat?, if_pos kind]
    rfl

/-- The loops that loading writes out are the `repeat` blocks that it comes to. -/
theorem loops_outline (vs : List Value) : (outline vs).loops = (repeats vs).map writtenLoop := by
  rw [loops_outline_eq_flatMap, repeats_eq, List.map_flatMap]
  refine List.flatMap_congr fun v hv => ?_
  have hlists : ∀ vs' ∈ listsRead v, (outline vs').loops = (repeats vs').map writtenLoop :=
    fun vs' hvs' => loops_outline vs'
  rw [loops_outlineBlock, List.map_append, List.map_flatMap, List.flatMap_congr hlists]
termination_by sizeOf vs
decreasing_by
  exact Nat.lt_trans (sizeOf_lt_of_mem_listsRead vs' hvs') (List.sizeOf_lt_of_mem hv)

end Block

namespace Program

open Block
open Json (Value)

def Source.repeats (s : Source) : List Json.Fields :=
  s.functions.flatMap (fun d => Block.repeats d.2) ++ Block.repeats s.actions

theorem Source.loops_eq (s : Source) : s.loops = s.repeats.map writtenLoop := by
  simp only [loops, loopsOf, repeats, loops_outline, List.map_append, List.map_flatMap]

def repeats (v : Value) : List Json.Fields := (source? v).elim [] Source.repeats

theorem loops_eq (v : Value) : loops v = (repeats v).map writtenLoop := by
  cases h : source? v with
  | none => rw [loops, repeats, h]; rfl
  | some s => rw [loops, repeats, h, Option.elim_some, Option.elim_some, s.loops_eq]

end Program

end BlockRobot
