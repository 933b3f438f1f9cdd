import BlockRobot.Proofs.Program.Nodes
import BlockRobot.Proofs.Program.Source

/-!
# The size of loaded programs

Only writing loops out makes a program larger than its blocks: `Source.Describes.nodeCount_le`. The
limit on loading counts the lists that are written out, without what their statements nest. It
bounds the size of a program whose copied bodies nest nothing (`Block.copies_le_charge`), but not of
every program (`nodeCount_thicket`).
-/

namespace BlockRobot

namespace Statement

def treeSize (ss : List Statement) : Nat := (nodesOf ss).length

@[simp] theorem treeSize_nil : treeSize [] = 0 := rfl

@[simp] theorem treeSize_append (ss ts : List Statement) :
    treeSize (ss ++ ts) = treeSize ss + treeSize ts := by
  rw [treeSize, nodesOf_append, List.length_append]
  rfl

@[simp] theorem treeSize_cons (s : Statement) (rest : List Statement) :
    treeSize (s :: rest) = 1 + treeSize s.nested + treeSize rest := by
  rw [treeSize, nodesOf, nodes_eq, List.length_append, List.length_cons, Nat.add_comm _ 1]
  rfl

theorem treeSize_replicate (n : Nat) (ss : List Statement) :
    treeSize (List.replicate n ss).flatten = n * treeSize ss := by
  induction n with
  | zero => simp [treeSize, nodesOf]
  | succ n ih =>
    rw [List.replicate_succ, List.flatten_cons, treeSize_append, ih, Nat.succ_mul, Nat.add_comm]

def Flat (ss : List Statement) : Prop := ∀ s ∈ ss, s.nested = []

theorem Flat.treeSize_eq {ss : List Statement} (h : Flat ss) : treeSize ss = ss.length := by
  induction ss with
  | nil => rfl
  | cons s rest ih =>
    have hs : s.nested = [] := h s List.mem_cons_self
    rw [treeSize_cons, hs, ih fun t ht => h t (List.mem_cons_of_mem s ht), List.length_cons,
      Nat.add_comm _ 1]
    rfl

end Statement

namespace Block

open Json (Value)
open Statement

/-- How many statements, nested ones included, are there only because loops are written out: all
copies of a body but one. -/
def copies (loops : List WrittenLoop) : Nat :=
  sumOver (fun l => (l.rounds - 1) * treeSize l.body) loops

@[simp] theorem copies_nil : copies [] = 0 := rfl

@[simp] theorem copies_append (xs ys : List WrittenLoop) :
    copies (xs ++ ys) = copies xs + copies ys := sumOver_append _ xs ys

/-- What loading charges covers the copies of bodies that nest nothing. -/
theorem copies_le_charge {loops : List WrittenLoop}
    (h : ∀ l ∈ loops, 1 < l.rounds → Flat l.body) : copies loops ≤ charge loops := by
  induction loops with
  | nil => exact Nat.le_refl _
  | cons l rest ih =>
    have hrest := ih fun l' hl' => h l' (List.mem_cons_of_mem l hl')
    refine Nat.add_le_add ?_ hrest
    show (l.rounds - 1) * treeSize l.body ≤ l.rounds * l.body.length
    rcases Nat.lt_or_ge 1 l.rounds with hmany | hone
    · rw [(h l List.mem_cons_self hmany).treeSize_eq]
      exact Nat.mul_le_mul_right _ (Nat.sub_le _ _)
    · simp [Nat.sub_eq_zero_of_le hone]

/-! ## Blocks -/

/-- The outline is no larger than `n` and the copies in its loops. -/
def Fits {α : Type} (size : α → Nat) (x : Outline α) (n : Nat) : Prop :=
  size x.value ≤ n + copies x.loops

def clausesSize (elseIfs : List (Condition × List Statement)) : Nat :=
  treeSize (elseIfs.flatMap Prod.snd)

namespace Fits

variable {α : Type}

theorem mono {size : α → Nat} {x : Outline α} {m n : Nat} (h : Fits size x m) (hle : m ≤ n) :
    Fits size x n :=
  Nat.le_trans h (Nat.add_le_add_right hle _)

theorem pure {size : α → Nat} {a : α} {n : Nat} (h : size a ≤ n) : Fits size (Pure.pure a) n := h

theorem ite {size : α → Nat} {c : Prop} [Decidable c] {x y : Outline α} {n : Nat}
    (hx : Fits size x n) (hy : Fits size y n) : Fits size (if c then x else y) n := by
  split
  · exact hx
  · exact hy

theorem of_rel {size : List α → Nat} {found : Option (Outline (List α))} {n : Option Nat}
    (hnil : size [] = 0) (h : Option.Rel (Fits size) found n) :
    Fits size (orNone found) (n.getD 0) := by
  cases h with
  | some h => exact h
  | none => exact Nat.le_of_eq hnil

theorem first {size : List α → Nat} {a b : Option (Outline (List α))} {m n : Option Nat}
    (hnil : size [] = 0) (ha : Option.Rel (Fits size) a m) (hb : Option.Rel (Fits size) b n) :
    Fits size (orNone (a <|> b)) ((m <|> n).getD 0) := by
  cases ha with
  | some h => exact h
  | none => exact of_rel hnil hb

theorem either {size : List α → Nat} {a b : Option (Outline (List α))} {m n : Nat}
    (ha : Fits size (orNone a) m) (hb : Fits size (orNone b) n) :
    Fits size (orNone (a <|> b)) (m + n) := by
  cases a with
  | some x => exact ha.mono (Nat.le_add_right m n)
  | none => exact hb.mono (Nat.le_add_left n m)

theorem written {x : Outline (List Statement)} {n : Nat} (head : LoopHead)
    (h : Fits treeSize x n) : Fits treeSize (x >>= Block.written head) (1 + n) := by
  simp only [Fits, Block.written, Outline.value_bind, Outline.loops_bind, copies_append] at h ⊢
  cases head.staticCount with
  | none =>
    simp [nested]
    omega
  | some rounds =>
    have hcopies : copies [⟨rounds, x.value⟩] = (rounds - 1) * treeSize x.value := Nat.add_zero _
    have hrounds :
        rounds * treeSize x.value ≤ treeSize x.value + (rounds - 1) * treeSize x.value := by
      cases rounds with
      | zero => omega
      | succ k =>
        rw [Nat.succ_mul, Nat.add_sub_cancel]
        omega
    simp only [treeSize_replicate, hcopies]
    omega

end Fits

mutual

theorem fits_outline (vs : List Value) : Fits treeSize (outline vs) (count vs) := by
  cases vs with
  | nil => exact Nat.le_refl _
  | cons v rest =>
    have hv := fits_outlineBlock v
    have hrest := fits_outline rest
    simp [Fits, outline, count] at hv hrest ⊢
    omega

theorem fits_outlineBlock (v : Value) : Fits treeSize (outlineBlock v) (countBlock v) := by
  cases v with
  | obj fields =>
    have hunder (key : String) := Fits.of_rel rfl (fits_outlineUnder key fields)
    have hbody := (hunder "body").either (hunder "bodyActions")
    have hthen := (hunder "then").either (hunder "thenActions")
    have helse := (hunder "else").either (hunder "elseActions")
    have hclauses := (fits_outlineClausesUnder "elseIf" fields).either
      (fits_outlineClausesUnder "elseIfClauses" fields)
    simp only [outlineBlock, countBlock, own, listKeys, clauseKeys, sumOver]
    cases stringUnder? ["type"] fields with
    | none => exact Nat.zero_le _
    | some kind =>
      have hone {s : Statement} {n : Nat} (hs : s.nested = []) :
          Fits treeSize (Pure.pure [s]) (1 + n) := .pure (by simp [hs])
      simp only [Option.isSome_some, if_true, Nat.add_assoc]
      refine .ite (hone rfl) (.ite (hone rfl) (.ite (hone rfl) (.ite (hone rfl) (.ite (hone rfl)
        (.ite (hone rfl) (.ite (hone rfl) (.ite ?times (.ite ?range (.ite ?branch (.ite ?loop
          (.ite ?call (.pure (Nat.zero_le _)))))))))))))
      case times => exact (hbody.written _).mono (by omega)
      case range =>
        cases stringUnder? ["variable"] fields with
        | none => exact .pure (Nat.zero_le _)
        | some name => exact (hbody.written _).mono (by omega)
      case branch =>
        cases conditionValue fields with
        | none => exact .pure (Nat.zero_le _)
        | some c =>
          simp [Fits, nested, clausesSize] at hthen helse hclauses ⊢
          omega
      case loop =>
        cases conditionValue fields with
        | none => exact .pure (Nat.zero_le _)
        | some c =>
          simp [Fits, nested] at hbody ⊢
          omega
      case call =>
        cases stringUnder? ["functionName", "name"] fields with
        | none => exact .pure (Nat.zero_le _)
        | some name => exact hone rfl
  | _ => exact Nat.le_refl _

theorem fits_outlineUnder (key : String) (fields : List (String × Value)) :
    Option.Rel (Fits treeSize) (outlineUnder? key fields) (countUnder? key fields) := by
  match fields with
  | [] => exact .none
  | (k, v) :: rest =>
    have hrest := fits_outlineUnder key rest
    cases v with
    | arr items =>
      have hitems := fits_outline items
      by_cases hk : k = key
      · simpa only [outlineUnder?, countUnder?, hk, if_true] using .some hitems
      · simpa only [outlineUnder?, countUnder?, hk, if_false] using hrest
    | _ =>
      by_cases hk : k = key
      · simpa only [outlineUnder?, countUnder?, hk, if_true] using .none
      · simpa only [outlineUnder?, countUnder?, hk, if_false] using hrest

theorem fits_outlineClausesUnder (key : String) (fields : List (String × Value)) :
    Fits clausesSize (orNone (outlineClausesUnder? key fields)) (countClausesUnder key fields) := by
  match fields with
  | [] => exact Nat.le_refl _
  | (k, v) :: rest =>
    have hrest := fits_outlineClausesUnder key rest
    cases v with
    | arr items =>
      have hitems := fits_outlineClauses items
      by_cases hk : k = key
      · simp only [outlineClausesUnder?, countClausesUnder, hk, if_true]
        exact hitems
      · simpa only [outlineClausesUnder?, countClausesUnder, hk, if_false] using hrest
    | _ =>
      by_cases hk : k = key
      · simp only [outlineClausesUnder?, countClausesUnder, hk, if_true]
        exact Nat.le_refl _
      · simpa only [outlineClausesUnder?, countClausesUnder, hk, if_false] using hrest

theorem fits_outlineClauses (vs : List Value) :
    Fits clausesSize (outlineClauses vs) (countClauses vs) := by
  cases vs with
  | nil => exact Nat.le_refl _
  | cons v rest =>
    have hv := fits_outlineClause v
    have hrest := fits_outlineClauses rest
    simp [Fits, outlineClauses, countClauses, clausesSize] at hv hrest ⊢
    omega

theorem fits_outlineClause (v : Value) :
    Fits (fun c => clausesSize c.toList) (outlineClause v) (countClause v) := by
  cases v with
  | obj fields =>
    have hbody := Fits.first rfl (fits_outlineUnder "then" fields)
      (fits_outlineUnder "thenActions" fields)
    have hfirst : (["then", "thenActions"].findSome? fun k => countUnder? k fields) =
        (countUnder? "then" fields <|> countUnder? "thenActions" fields) := by
      simp only [List.findSome?_cons, List.findSome?_nil]
      cases countUnder? "then" fields <;> cases countUnder? "thenActions" fields <;> rfl
    simp only [outlineClause, countClause, hfirst]
    cases conditionValue fields with
    | none => exact .pure (Nat.zero_le _)
    | some c =>
      simp [Fits, clausesSize] at hbody ⊢
      omega
  | _ => exact Nat.le_refl _

end

end Block

/-! ## Programs -/

theorem Entries.sumOver_put_le {α : Type} (f : String × α → Nat) (key : String) (a : α)
    (es : Entries α) : sumOver f (put key a es) ≤ sumOver f es + f (key, a) := by
  induction es with
  | nil => simp [put, sumOver]
  | cons e rest ih =>
    obtain ⟨k, b⟩ := e
    by_cases hk : k = key
    · simp only [put, hk, if_true, sumOver]
      omega
    · simp only [put, hk, if_false, sumOver]
      omega

namespace Program

open Block Statement
open Json (Value)

theorem size_declare_le (table : Table Function) (functions : List (String × List Value)) :
    sumOver (fun e => treeSize e.2.body) (Source.declare table functions).entries ≤
      sumOver (fun e => treeSize e.2.body) table.entries + Source.countOf functions +
        copies (Source.loopsOf functions) := by
  induction functions generalizing table with
  | nil => exact Nat.le_refl _
  | cons d rest ih =>
    obtain ⟨name, blocks⟩ := d
    have hbody : treeSize (outline blocks).value ≤ count blocks + copies (outline blocks).loops :=
      fits_outline blocks
    have hrest := ih (table.insert name ⟨name, (outline blocks).value⟩)
    have hput := Entries.sumOver_put_le (fun e => treeSize e.2.body) name
      (Function.mk name (outline blocks).value) table.entries
    simp only [Source.declare, List.foldl_cons, Source.countOf, sumOver, Source.loopsOf,
      List.flatMap_cons, copies_append, Table.insert] at hrest hput ⊢
    omega

theorem nodeCount_eq (p : Program) :
    p.nodeCount =
      treeSize p.actions + sumOver (fun e => treeSize e.2.body) p.functions.entries := by
  rw [nodeCount, bodies, sumOver, sumOver_map]
  rfl

theorem Source.Describes.nodeCount_le {s : Source} {p : Program} (h : s.Describes p) :
    p.nodeCount ≤ p.blockCount + copies s.loops := by
  have hactions : treeSize (outline s.actions).value ≤
      count s.actions + copies (outline s.actions).loops := fits_outline s.actions
  have hfunctions := size_declare_le .empty s.functions
  rw [nodeCount_eq, h.actions, h.functions, h.blockCount, Source.loops, copies_append]
  simp only [Table.empty, sumOver] at hfunctions ⊢
  omega

/-! ## The limit on loading -/

def ofActions (blocks : List Value) : Value :=
  .obj [("version", .str "1"), ("actions", .arr blocks)]

theorem loops_ofActions (blocks : List Value) :
    loops (ofActions blocks) = (outline blocks).loops := rfl

theorem load_ofActions {blocks : List Value} (h : charge (outline blocks).loops ≤ maxUnrolled) :
    ∃ p, loadValue (ofActions blocks) = .ok p ∧ p.blockCount = count blocks ∧
      p.nodeCount = treeSize (outline blocks).value := by
  have hs : source? (ofActions blocks) = some ⟨[], blocks⟩ := rfl
  have hlimit : ∀ k, some maxUnrolled = some k → charge (outline blocks).loops ≤ k := by
    rintro k ⟨⟩
    exact h
  obtain ⟨p, hp, hdescribes⟩ := loadValueWith_of_source hs hlimit
  refine ⟨p, hp, hdescribes.blockCount, ?_⟩
  rw [nodeCount_eq, hdescribes.actions, hdescribes.functions]
  rfl

def turnBlock : Value := .obj [("type", .str "turnLeft")]

def repeatBlock (n : Nat) (body : List Value) : Value :=
  .obj [("type", .str "repeat"), ("count", .num (.int n)), ("body", .arr body)]

def ifItemBlock (body : List Value) : Value :=
  .obj [("type", .str "if"),
    ("condition", .obj [("type", .str "sensor"), ("functionName", .str "hasItem")]),
    ("then", .arr body)]

def IsCount (n : Nat) : Prop :=
  wholeCount? (.num (.int n)) = some n ∧ (LoopHead.times n).staticCount = some n

instance (n : Nat) : Decidable (IsCount n) := inferInstanceAs (Decidable (_ ∧ _))

theorem outline_repeatBlock {n : Nat} (h : IsCount n) (body : List Value) :
    outline [repeatBlock n body] =
      ⟨(List.replicate n (outline body).value).flatten,
        (outline body).loops ++ [⟨n, (outline body).value⟩]⟩ := by
  have hbody : outlineUnder? "body" [("type", .str "repeat"), ("count", .num (.int n)),
      ("body", .arr body)] = some (outline body) := by simp [outlineUnder?]
  have hcount : repeatValue [("type", .str "repeat"), ("count", .num (.int n)),
      ("body", .arr body)] = n := by simp [repeatValue, Json.field?, Entries.get?, h.1]
  ext1 <;> simp [outline, repeatBlock, outlineBlock, stringUnder?, Json.field?, Entries.get?,
    string?, hbody, hcount, orNone, written, h.2]

theorem outline_ifItemBlock (body : List Value) :
    outline [ifItemBlock body] =
      ⟨[.ifElse (.sensor "hasItem" true) (outline body).value [] []], (outline body).loops⟩ := by
  ext1
  · rfl
  · simp [outline, ifItemBlock, outlineBlock, stringUnder?, Json.field?, Entries.get?, string?,
      outlineUnder?, outlineClausesUnder?, orNone, conditionValue, condition, sensor]

/-- A program is no larger than its blocks and the copies in the loops that loading writes out. The
limit on loading bounds these copies where the bodies nest nothing. -/
theorem nodeCount_le_of_loadValue {v : Value} {p : Program} (h : loadValue v = .ok p) :
    p.nodeCount ≤ p.blockCount + copies (loops v) ∧
      ((∀ l ∈ loops v, 1 < l.rounds → Flat l.body) →
        p.nodeCount ≤ p.blockCount + maxUnrolled) := by
  obtain ⟨s, hs, hdescribes, hcharge⟩ := source_of_loadValue h
  have hloops : loops v = s.loops := by rw [loops, hs]; rfl
  have hsize : p.nodeCount ≤ p.blockCount + copies s.loops := hdescribes.nodeCount_le
  rw [hloops]
  refine ⟨hsize, fun hflat => ?_⟩
  calc p.nodeCount ≤ p.blockCount + copies s.loops := hsize
    _ ≤ p.blockCount + charge s.loops := Nat.add_le_add_left (copies_le_charge hflat) _
    _ ≤ p.blockCount + maxUnrolled := Nat.add_le_add_left hcharge _

def laps : Value := ofActions [repeatBlock 2 [repeatBlock 3 [turnBlock, turnBlock]]]

theorem nodeCount_laps :
    ∃ p, loadValue laps = .ok p ∧ (∀ l ∈ loops laps, 1 < l.rounds → Flat l.body) ∧
      p.nodeCount ≤ p.blockCount + copies (loops laps) ∧
      p.nodeCount ≤ p.blockCount + maxUnrolled := by
  have hturns : outline [turnBlock, turnBlock] = ⟨[.turnLeft, .turnLeft], []⟩ := rfl
  have hflat : ∀ l ∈ loops laps, 1 < l.rounds → Flat l.body := by
    rw [laps, loops_ofActions, outline_repeatBlock (by decide +kernel),
      outline_repeatBlock (by decide +kernel), hturns]
    simp [Flat, nested]
  obtain ⟨p, hp⟩ : ∃ p, loadValue laps = .ok p := ⟨_, rfl⟩
  obtain ⟨hcopies, hlimit⟩ := nodeCount_le_of_loadValue hp
  exact ⟨p, hp, hflat, hcopies, hlimit hflat⟩

/-- The size of a loop in a branch in a loop is the product of the two counts, its charge their
sum. -/
theorem nodeCount_thicket {m n : Nat} (hm : IsCount m) (hn : IsCount n)
    (hsum : n + m ≤ maxUnrolled) :
    ∃ p, loadValue (ofActions [repeatBlock m [ifItemBlock [repeatBlock n [turnBlock]]]]) = .ok p ∧
      p.blockCount = 4 ∧ p.nodeCount = m * (n + 1) := by
  have hturn : outline [turnBlock] = ⟨[.turnLeft], []⟩ := rfl
  have hout := outline_repeatBlock hm [ifItemBlock [repeatBlock n [turnBlock]]]
  rw [outline_ifItemBlock, outline_repeatBlock hn, hturn] at hout
  have hcharge : charge (outline [repeatBlock m [ifItemBlock [repeatBlock n [turnBlock]]]]).loops ≤
      maxUnrolled := by
    simpa [hout, charge, sumOver] using hsum
  obtain ⟨p, hp, hblocks, hnodes⟩ := load_ofActions hcharge
  refine ⟨p, hp, hblocks, ?_⟩
  rw [hnodes, hout]
  simp only [treeSize_replicate, treeSize_cons, nested, List.flatMap_nil, List.append_nil,
    treeSize_nil, Nat.add_zero, Nat.mul_one, Nat.add_comm 1 n]

theorem exists_nodeCount_gt :
    ∃ v p, loadValue v = .ok p ∧ p.blockCount + maxUnrolled < p.nodeCount := by
  obtain ⟨p, hp, hblocks, hnodes⟩ :=
    nodeCount_thicket (m := 400) (n := 300) (by decide +kernel) (by decide +kernel) (by decide)
  refine ⟨_, p, hp, ?_⟩
  rw [hblocks, hnodes]
  decide

end Program

end BlockRobot
