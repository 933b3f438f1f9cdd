import BlockRobot.Proofs.Program.Outline

/-!
# What a program declares

A `Source` is what loading reads of a program: the blocks of its functions and of its actions. Main
statements: a value with a source loads as long as the charge for the loops of the source is within
the limit (`loadValueWith_of_source`, `loadValueWith_eq_error`), and what loads has a source that
describes it (`source_of_loadValue`).
-/

namespace BlockRobot.Program

open Block
open Json (Value field?)

structure Source where
  functions : List (String × List Value)
  actions : List Value

namespace Source

def loopsOf (functions : List (String × List Value)) : List WrittenLoop :=
  functions.flatMap fun d => (outline d.2).loops

def countOf (functions : List (String × List Value)) : Nat := sumOver (fun d => count d.2) functions

/-- Adds functions to a table; one that is defined again replaces the earlier one. -/
def declare (table : Table Function) (functions : List (String × List Value)) : Table Function :=
  functions.foldl (fun t d => t.insert d.1 ⟨d.1, (outline d.2).value⟩) table

/-- All loops that are written out, those of functions that are defined again included. -/
def loops (s : Source) : List WrittenLoop := loopsOf s.functions ++ (outline s.actions).loops

structure Describes (s : Source) (p : Program) : Prop where
  functions : p.functions = declare .empty s.functions
  actions : p.actions = (outline s.actions).value
  blockCount : p.blockCount = count s.actions + countOf s.functions

end Source

def declared? : Value → Option (String × List Value)
  | .obj fields =>
    match field? "name" fields with
    | some (.str name) =>
      if (Text.trim name).isEmpty then none else some (name, bodyBlocks fields)
    | _ => none
  | _ => none

/-- The source of a program whose envelope is right. -/
def source? : Value → Option Source
  | .obj fields =>
    match requireString "version" fields, requireList "actions" fields,
      allowList "functions" fields with
    | .ok _, .ok blocks, .ok functionBlocks =>
      (functionBlocks.mapM declared?).map fun functions => ⟨functions, blocks⟩
    | _, _, _ => none
  | _ => none

def loops (v : Value) : List WrittenLoop := (source? v).elim [] Source.loops

/-! ## Loading functions -/

section

variable {limit : Option Nat}

theorem agrees_loadFunction {v : Value} {name : String} {blocks : List Value}
    (h : declared? v = some (name, blocks)) (i : Nat) :
    Agrees limit (loadFunction limit i v)
      ⟨(⟨name, (outline blocks).value⟩, count blocks), (outline blocks).loops⟩ := by
  cases v with
  | obj fields =>
    simp only [declared?] at h
    split at h
    · next name' hname =>
      split at h
      · cases h
      · next hblank =>
        cases h
        simp only [loadFunction, hname, if_neg hblank]
        exact .map (fun body => (Function.mk name body, count (bodyBlocks fields)))
          (agrees_statements limit _ 0 (bodyBlocks fields))
    · cases h
  | _ => cases h

theorem agrees_loadFunctions {vs : List Value} {functions : List (String × List Value)}
    (h : vs.mapM declared? = some functions) (i : Nat) (table : Table Function) (n : Nat) :
    Agrees limit (loadFunctions limit i table n vs)
      ⟨(Source.declare table functions, n + Source.countOf functions),
        Source.loopsOf functions⟩ := by
  induction vs generalizing functions i table n with
  | nil =>
    cases h
    exact .pure _
  | cons v rest ih =>
    obtain ⟨⟨name, blocks⟩, hv, others, hrest, rfl⟩ :
        ∃ d, declared? v = some d ∧ ∃ ds, rest.mapM declared? = some ds ∧ d :: ds = functions := by
      simpa [List.mapM_cons, Option.bind_eq_some_iff] using h
    have hout :
        Outline.mk (Source.declare table ((name, blocks) :: others),
          n + Source.countOf ((name, blocks) :: others))
          (Source.loopsOf ((name, blocks) :: others)) =
        (⟨(⟨name, (outline blocks).value⟩, count blocks), (outline blocks).loops⟩ >>= fun d =>
          ⟨(Source.declare (table.insert d.1.name d.1) others, n + d.2 + Source.countOf others),
            Source.loopsOf others⟩) := by
      ext1
      · simp [Source.declare, Source.countOf, sumOver, Nat.add_assoc]
      · simp [Source.loopsOf]
    rw [hout]
    refine (agrees_loadFunction hv i).bind ?_
    simp only []
    split
    · exact .bind_free (.warn _ _) (ih hrest _ _ _)
    · exact ih hrest _ _ _

/-! ## Loading programs -/

/-- What loading does below the envelope. -/
def loadLists (limit : Option Nat) (functionBlocks blocks : List Value) :
    Load ((Table Function × Nat) × List Statement) := do
  let functions ← loadFunctions limit 0 .empty (count blocks) functionBlocks
  return (functions, ← statements limit (Path.ofRoot "actions") 0 blocks)

theorem agrees_loadLists (limit : Option Nat) {s : Source} {functionBlocks : List Value}
    (h : functionBlocks.mapM declared? = some s.functions) :
    Agrees limit (loadLists limit functionBlocks s.actions)
      ⟨((Source.declare .empty s.functions, count s.actions + Source.countOf s.functions),
        (outline s.actions).value), s.loops⟩ :=
  .bind (y := fun r => ⟨(r, (outline s.actions).value), (outline s.actions).loops⟩)
    (agrees_loadFunctions h 0 .empty _) (.map _ (agrees_statements limit _ 0 s.actions))

theorem loadValueWith_eq {fields : Json.Fields} {version : String}
    {blocks functionBlocks : List Value} (hversion : requireString "version" fields = .ok version)
    (hblocks : requireList "actions" fields = .ok blocks)
    (hfunctions : allowList "functions" fields = .ok functionBlocks) :
    loadValueWith limit (.obj fields) =
      ((loadLists limit functionBlocks blocks).run ⟨[], .empty, 0⟩).map fun r =>
        { version
          functions := r.1.1.1
          actions := r.1.2
          name := stringUnder? ["programName"] fields
          blockCount := r.1.1.2
          unrolled := r.2.unrolled
          warnings := r.2.warnings } := by
  simp only [loadValueWith, hversion, hblocks, hfunctions, loadLists, bind, Except.bind,
    StateT.bind, StateT.run]
  cases loadFunctions limit 0 .empty (count blocks) functionBlocks ⟨[], .empty, 0⟩ with
  | error e => rfl
  | ok r =>
    simp only []
    cases statements limit (Path.ofRoot "actions") 0 blocks r.2 with
    | error e => rfl
    | ok r' => rfl

theorem exists_fields_of_source {v : Value} {s : Source} (h : source? v = some s) :
    ∃ fields version functionBlocks, v = .obj fields ∧
      requireString "version" fields = .ok version ∧ requireList "actions" fields = .ok s.actions ∧
      allowList "functions" fields = .ok functionBlocks ∧
      functionBlocks.mapM declared? = some s.functions := by
  cases v with
  | obj fields =>
    simp only [source?] at h
    split at h
    · next version blocks functionBlocks hversion hblocks hfunctions =>
      obtain ⟨functions, hmap, rfl⟩ := Option.map_eq_some_iff.mp h
      exact ⟨fields, version, functionBlocks, rfl, hversion, hblocks, hfunctions, hmap⟩
    · cases h
  | _ => cases h

theorem loadValueWith_of_source {v : Value} {s : Source} (h : source? v = some s)
    (hcharge : ∀ k, limit = some k → charge s.loops ≤ k) :
    ∃ p, loadValueWith limit v = .ok p ∧ s.Describes p := by
  obtain ⟨fields, version, functionBlocks, rfl, hversion, hblocks, hfunctions, hmap⟩ :=
    exists_fields_of_source h
  obtain ⟨l, hrun, -⟩ := (agrees_loadLists limit hmap).ok ⟨[], .empty, 0⟩ (by simpa using hcharge)
  rw [loadValueWith_eq hversion hblocks hfunctions, hrun]
  exact ⟨_, rfl, rfl, rfl, rfl⟩

theorem loadValueWith_eq_error {v : Value} {s : Source} {k : Nat} (h : source? v = some s)
    (hk : k < maxCount) (hcharge : k < charge s.loops) :
    loadValueWith (some k) v = .error (.expansionLimit k) := by
  obtain ⟨fields, version, functionBlocks, rfl, hversion, hblocks, hfunctions, hmap⟩ :=
    exists_fields_of_source h
  have hrun := (agrees_loadLists (some k) hmap).error ⟨[], .empty, 0⟩ k rfl hk (Nat.zero_le k)
    (by simpa using hcharge)
  rw [loadValueWith_eq hversion hblocks hfunctions, hrun]
  rfl

/-! ## Sources of programs that load -/

theorem exists_of_bind_ok {ε α β : Type} {x : Except ε α} {f : α → Except ε β} {b : β}
    (h : x >>= f = .ok b) : ∃ a, x = .ok a ∧ f a = .ok b := by
  cases x with
  | error e => cases h
  | ok a => exact ⟨a, rfl, h⟩

theorem exists_of_run_bind {α β : Type} {load : Load α} {next : α → Load β} {l : Ledger}
    {r : β × Ledger} (h : (load >>= next).run l = .ok r) :
    ∃ a l', load.run l = .ok (a, l') ∧ (next a).run l' = .ok r := by
  rw [StateT.run_bind] at h
  obtain ⟨⟨a, l'⟩, hload, hnext⟩ := exists_of_bind_ok h
  exact ⟨a, l', hload, hnext⟩

theorem exists_declared_of_loadFunction {v : Value} {i : Nat} {l : Ledger}
    {r : (Function × Nat) × Ledger} (h : (loadFunction limit i v).run l = .ok r) :
    ∃ d, declared? v = some d := by
  cases v with
  | obj fields =>
    simp only [loadFunction] at h
    split at h
    · next name hname =>
      split at h
      · cases h
      · next hblank =>
        exact ⟨(name, bodyBlocks fields), by simp only [declared?, hname, if_neg hblank]⟩
    · cases h
  | _ => cases h

theorem exists_declared_of_loadFunctions {vs : List Value} {i n : Nat} {table : Table Function}
    {l : Ledger} {r : (Table Function × Nat) × Ledger}
    (h : (loadFunctions limit i table n vs).run l = .ok r) :
    ∃ functions, vs.mapM declared? = some functions := by
  induction vs generalizing i table n l with
  | nil => exact ⟨[], rfl⟩
  | cons v rest ih =>
    obtain ⟨⟨f, m⟩, l₁, hf, hrest⟩ := exists_of_run_bind h
    obtain ⟨d, hd⟩ := exists_declared_of_loadFunction hf
    obtain ⟨others, hothers⟩ : ∃ functions, rest.mapM declared? = some functions := by
      simp only [] at hrest
      split at hrest
      · obtain ⟨_, l₂, -, hrest⟩ := exists_of_run_bind hrest
        exact ih hrest
      · exact ih hrest
    exact ⟨d :: others, by simp [hd, hothers]⟩

theorem exists_source_of_loadValueWith {v : Value} {p : Program}
    (h : loadValueWith limit v = .ok p) : ∃ s, source? v = some s := by
  cases v with
  | obj fields =>
    obtain ⟨version, hversion, h⟩ := exists_of_bind_ok h
    obtain ⟨blocks, hblocks, h⟩ := exists_of_bind_ok h
    obtain ⟨functionBlocks, hfunctions, h⟩ := exists_of_bind_ok h
    obtain ⟨r, hrun, -⟩ := exists_of_bind_ok h
    obtain ⟨_, _, hlists, -⟩ := exists_of_run_bind hrun
    obtain ⟨functions, hmap⟩ := exists_declared_of_loadFunctions hlists
    exact ⟨⟨functions, blocks⟩, by simp [source?, hversion, hblocks, hfunctions, hmap]⟩
  | _ => cases h

theorem source_of_loadValue {v : Value} {p : Program} (h : loadValue v = .ok p) :
    ∃ s, source? v = some s ∧ s.Describes p ∧ charge s.loops ≤ maxUnrolled := by
  obtain ⟨s, hs⟩ := exists_source_of_loadValueWith h
  have hcharge : charge s.loops ≤ maxUnrolled := by
    refine Nat.le_of_not_lt fun hlt => ?_
    rw [loadValue, loadValueWith_eq_error hs (by decide) hlt] at h
    cases h
  have hlimit : ∀ k, some maxUnrolled = some k → charge s.loops ≤ k := by
    rintro k ⟨⟩
    exact hcharge
  obtain ⟨p', hp', hdescribes⟩ := loadValueWith_of_source hs hlimit
  cases h.symm.trans hp'
  exact ⟨s, hs, hdescribes, hcharge⟩

end

end BlockRobot.Program
