import BlockRobot.Proofs.Program.Ledger
import Mathlib.Data.List.Induction
import Mathlib.Data.List.Nodup

/-!
# Functions that are defined again

The table of a program lists the names of its functions in the order in which they are first defined, and has
for each name its last definition. Main statement: `Program.functions_of_loadValue`.
-/

namespace BlockRobot

namespace Program

open Block
open Json (Value field?)

/-! ## The table -/

theorem eraseDups_append_singleton (names : List String) (name : String) :
    (names ++ [name]).eraseDups = names.eraseDups ++ if name ∈ names then [] else [name] := by
  rw [List.eraseDups_append]
  by_cases hname : name ∈ names <;> simp [List.removeAll, hname, List.eraseDups_cons]

namespace Source

theorem declare_append (table : Table Function) (ds ds' : List (String × List Value)) :
    declare table (ds ++ ds') = declare (declare table ds) ds' := List.foldl_append

theorem keys_declare (ds : List (String × List Value)) :
    (declare .empty ds).keys = (ds.map Prod.fst).eraseDups := by
  induction ds using List.reverseRecOn with
  | nil => rfl
  | append_singleton ds d ih =>
    have hmem : d.1 ∈ (declare .empty ds).keys ↔ d.1 ∈ ds.map Prod.fst := by
      rw [ih, List.mem_eraseDups]
    rw [declare_append, List.map_append, List.map_singleton, eraseDups_append_singleton, ← ih]
    refine (Table.keys_insert _ _ _).trans ?_
    simp only [hmem]
    split
    · rw [List.append_nil]
    · rfl

theorem get?_declare_of_not_mem {table : Table Function} {ds : List (String × List Value)} {name : String}
    (h : name ∉ ds.map Prod.fst) : (declare table ds).get? name = table.get? name := by
  induction ds generalizing table with
  | nil => rfl
  | cons d rest ih =>
    rw [List.map_cons, List.mem_cons, not_or] at h
    refine (ih h.2).trans ?_
    rw [Table.get?_insert, if_neg (Ne.symm h.1)]

theorem get?_declare_last {table : Table Function} {before after : List (String × List Value)}
    {d : String × List Value} (h : d.1 ∉ after.map Prod.fst) :
    (declare table (before ++ d :: after)).get? d.1 = some ⟨d.1, (outline d.2).value⟩ := by
  rw [declare_append]
  refine (get?_declare_of_not_mem h).trans ?_
  rw [Table.get?_insert, if_pos rfl]

end Source

/-! ## The warnings -/

def entryPath (i : Nat) : Path := (Path.ofRoot "functions").index i

def bodyPath (name : String) : Path := (Path.ofRoot "functions").field name

def redefinition (i : Nat) (name : String) : Warning :=
  warning (entryPath i) ("function '" ++ name ++ "' is defined more than once; the last definition wins")

theorem isRedefinition_redefinition (i : Nat) (name : String) : (redefinition i name).IsRedefinition := by
  have htext : "is defined more than once; the last definition wins".toList <:+
      "' is defined more than once; the last definition wins".toList := by decide +kernel
  simp only [Warning.IsRedefinition, redefinition, warning, String.toList_append]
  exact htext.trans (List.suffix_append _ _)

/-- What loading says about definitions, given what it says about each body; functions with the names
`before` stand before them. -/
def told (remarks : String × List Value → List Warning) (before : List String) :
    List (String × List Value) → List Warning
  | [] => []
  | d :: rest =>
    remarks d ++ (if d.1 ∈ before then [redefinition before.length d.1] else []) ++
      told remarks (before ++ [d.1]) rest

section

variable {remarks : String × List Value → List Warning}

theorem filter_told (hplain : ∀ d, Plain (remarks d)) (before : List String)
    (ds : List (String × List Value)) :
    (told remarks before ds).filter (fun w => w.IsRedefinition) =
      ((ds.map Prod.fst).zipIdx before.length |>.filter fun e =>
        e.1 ∈ (before ++ ds.map Prod.fst).take e.2).map fun e => redefinition e.2 e.1 := by
  induction ds generalizing before with
  | nil => rfl
  | cons d rest ih =>
    have hremarks : (remarks d).filter (fun w => w.IsRedefinition) = [] :=
      List.filter_eq_nil_iff.mpr fun w hw => by simpa using hplain d w hw
    have hrest := ih (before ++ [d.1])
    rw [List.length_append, List.length_singleton, List.append_assoc, List.singleton_append] at hrest
    rw [told, List.filter_append, List.filter_append, hremarks, List.nil_append, hrest, List.map_cons,
      List.zipIdx_cons, List.filter_cons, List.take_left]
    by_cases hd : d.1 ∈ before
    · simp [hd, isRedefinition_redefinition]
    · simp [hd]

end

/-- The names that stand again after an earlier place, with the later places. -/
def repeated (names : List String) : List (String × Nat) := names.zipIdx.filter fun e => e.1 ∈ names.take e.2

theorem repeated_append (names : List String) (name : String) :
    repeated (names ++ [name]) =
      repeated names ++ if name ∈ names then [(name, names.length)] else [] := by
  have hearlier : names.zipIdx.filter (fun e => e.1 ∈ (names ++ [name]).take e.2) = repeated names := by
    refine List.filter_congr fun e he => ?_
    rw [List.take_append_of_le_length (Nat.le_of_lt (List.snd_lt_of_mem_zipIdx he))]
  rw [repeated, List.zipIdx_append, List.filter_append, hearlier]
  by_cases hname : name ∈ names <;> simp [hname]

theorem length_repeated (names : List String) :
    (repeated names).length + names.eraseDups.length = names.length := by
  induction names using List.reverseRecOn with
  | nil => rfl
  | append_singleton names name ih =>
    rw [repeated_append, eraseDups_append_singleton, List.length_append, List.length_append,
      List.length_append, List.length_singleton]
    by_cases hname : name ∈ names
    · simp only [hname, if_true, List.length_singleton, List.length_nil]
      omega
    · simp only [hname, if_false, List.length_singleton, List.length_nil]
      omega

/-! ## Entries -/

theorem exists_cons_of_mapM {e : Value} {ys : List Value} {ds : List (String × List Value)}
    (h : (e :: ys).mapM declared? = some ds) :
    ∃ d ds', declared? e = some d ∧ ys.mapM declared? = some ds' ∧ ds = d :: ds' := by
  simp only [List.mapM_cons, Option.bind_eq_bind, Option.bind_eq_some_iff, Option.pure_def,
    Option.some.injEq] at h
  obtain ⟨d, hd, ds', hds', rfl⟩ := h
  exact ⟨d, ds', hd, hds', rfl⟩

theorem exists_append_of_mapM {xs ys : List Value} {ds : List (String × List Value)}
    (h : (xs ++ ys).mapM declared? = some ds) :
    ∃ ds₁ ds₂, xs.mapM declared? = some ds₁ ∧ ys.mapM declared? = some ds₂ ∧ ds = ds₁ ++ ds₂ := by
  simp only [List.mapM_append, Option.bind_eq_bind, Option.bind_eq_some_iff, Option.pure_def,
    Option.some.injEq] at h
  obtain ⟨ds₁, hds₁, ds₂, hds₂, rfl⟩ := h
  exact ⟨ds₁, ds₂, hds₁, hds₂, rfl⟩

def declaredName? (v : Value) : Option String := (declared? v).map Prod.fst

theorem map_declaredName {entries : List Value} {ds : List (String × List Value)}
    (h : entries.mapM declared? = some ds) : entries.map declaredName? = ds.map fun d => some d.1 := by
  induction entries generalizing ds with
  | nil => cases h; rfl
  | cons e rest ih =>
    obtain ⟨d, others, hd, hothers, rfl⟩ := exists_cons_of_mapM h
    rw [List.map_cons, List.map_cons, ih hothers, declaredName?, hd, Option.map_some]

/-! ## Loading functions -/

section

variable {limit : Option Nat}

theorem gives_loadFunction {v : Value} {d : String × List Value} {body : List Statement}
    {ws : List Warning} {ks : List Kind} (h : declared? v = some d)
    (hbody : Gives (statements limit (bodyPath d.1) 0 d.2) body ws ks) (i : Nat) :
    Gives (loadFunction limit i v) (⟨d.1, body⟩, count d.2) ws ks := by
  cases v with
  | obj fields =>
    simp only [declared?] at h
    split at h
    · next name hname =>
      split at h
      · cases h
      · next hblank =>
        cases h
        simp only [loadFunction, hname, if_neg hblank]
        exact hbody.map _
    · cases h
  | _ => cases h

theorem gives_loadFunctions {remarks : String × List Value → List Warning}
    {kinds : String × List Value → List Kind}
    (hbodies : ∀ d, ∃ body, Gives (statements limit (bodyPath d.1) 0 d.2) body (remarks d) (kinds d))
    {vs : List Value} {ds : List (String × List Value)} (h : vs.mapM declared? = some ds)
    {before : List String} {table : Table Function} (htable : ∀ name, name ∈ table.keys ↔ name ∈ before)
    (n : Nat) :
    ∃ r, Gives (loadFunctions limit before.length table n vs) r (told remarks before ds)
      (ds.flatMap kinds) := by
  induction vs generalizing ds before table n with
  | nil =>
    cases h
    exact ⟨_, .pure _⟩
  | cons v rest ih =>
    obtain ⟨d, others, hd, hothers, rfl⟩ := exists_cons_of_mapM h
    obtain ⟨body, hbody⟩ := hbodies d
    have hcontains : table.contains d.1 = true ↔ d.1 ∈ before :=
      (Table.contains_iff_mem_keys table d.1).trans (htable d.1)
    have hinsert (name : String) :
        name ∈ (table.insert d.1 ⟨d.1, body⟩).keys ↔ name ∈ before ++ [d.1] := by
      rw [Table.keys_insert, List.mem_append, List.mem_singleton, ← htable]
      split
      · next hmem => exact ⟨.inl, fun h => h.elim id fun hname => hname ▸ hmem⟩
      · rw [List.mem_append, List.mem_singleton]
    obtain ⟨r, hr⟩ := ih hothers hinsert (n + count d.2)
    rw [List.length_append, List.length_singleton] at hr
    refine ⟨r, ?_⟩
    rw [loadFunctions, told, List.append_assoc, List.flatMap_cons]
    refine (gives_loadFunction hd hbody before.length).bind ?_
    simp only [hcontains]
    split
    · exact (Gives.warnAll [redefinition before.length d.1]).bind hr
    · exact hr

end

theorem exists_run_of_agrees {α : Type} {load : Load α} {x : Outline α}
    (h : Agrees (some maxUnrolled) load x) (hcharge : charge x.loops ≤ maxUnrolled) :
    ∃ l, load.run ⟨[], .empty, 0⟩ = .ok (x.value, l) := by
  obtain ⟨l, hrun, -⟩ := h.ok ⟨[], .empty, 0⟩ (by rintro k ⟨⟩; simpa using hcharge)
  exact ⟨l, hrun⟩

/-- What loading says and writes out at each list of blocks of a program. -/
structure Remarks where
  warnings : Path → List Value → List Warning
  kinds : Path → List Value → List Kind
  plain : ∀ path vs, Plain (warnings path vs)
  gives : ∀ path vs, ∃ ss, Gives (statements (some maxUnrolled) path 0 vs) ss (warnings path vs) (kinds path vs)

theorem nonempty_remarks : Nonempty Remarks := by
  choose ss ws ks h using fun (path : Path) (vs : List Value) => steady_statements (some maxUnrolled) path 0 vs
  exact ⟨⟨ws, ks, fun path vs => (h path vs).2, fun path vs => ⟨ss path vs, (h path vs).1⟩⟩⟩

namespace Remarks

variable (r : Remarks)

def ofBody (d : String × List Value) : List Warning := r.warnings (bodyPath d.1) d.2

theorem under {path : Path} {vs : List Value} (h : charge (outline vs).loops ≤ maxUnrolled) :
    Under path (r.warnings path vs) := by
  obtain ⟨l, hrun⟩ := exists_run_of_agrees (agrees_statements (some maxUnrolled) path 0 vs) h
  obtain ⟨ss, hgives⟩ := r.gives path vs
  obtain ⟨ws, hws, hunder⟩ := under_statements (some maxUnrolled) path 0 vs _ _ _ hrun
  have hsame : ws = r.warnings path vs :=
    List.append_cancel_left (hws.symm.trans (hgives _ _ _ hrun).2.warnings)
  exact hsame ▸ hunder

/-- What loading adds to the ledger is put together from what it adds at each body and at the actions. -/
theorem of_loadValue {v : Value} {s : Source} {p : Program} (hs : source? v = some s)
    (h : loadValue v = .ok p) :
    p.warnings = told r.ofBody [] s.functions ++ r.warnings (.ofRoot "actions") s.actions ∧
      ∀ k, k ∈ p.unrolled ↔ k ∈ s.functions.flatMap (fun d => r.kinds (bodyPath d.1) d.2) ++
        r.kinds (.ofRoot "actions") s.actions := by
  obtain ⟨fields, version, entries, rfl, hversion, hblocks, hentries, hmap⟩ := exists_fields_of_source hs
  rw [loadValue, loadValueWith_eq hversion hblocks hentries] at h
  obtain ⟨⟨a, l⟩, hrun, hp⟩ := exists_of_bind_ok h
  cases hp
  obtain ⟨table, hfunctions⟩ : ∃ table, Gives
      (loadFunctions (some maxUnrolled) 0 .empty (count s.actions) entries) table
      (told r.ofBody [] s.functions) (s.functions.flatMap fun d => r.kinds (bodyPath d.1) d.2) := by
    have hempty (name : String) : name ∈ (Table.empty : Table Function).keys ↔ name ∈ ([] : List String) :=
      Iff.rfl
    exact gives_loadFunctions (fun d => r.gives (bodyPath d.1) d.2) hmap hempty _
  obtain ⟨ss, hactions⟩ := r.gives (.ofRoot "actions") s.actions
  have hadds := ((hfunctions.bind (hactions.map fun ss => (table, ss))) _ _ _ hrun).2
  exact ⟨hadds.warnings, fun k => (hadds.unrolled k).trans (or_iff_right (List.not_mem_nil))⟩

end Remarks

/-! ## The table of a program -/

/-- What the entries of the functions give in a program; `definitions` are their names and blocks. -/
structure LastWins (entries : List Value) (definitions : List (String × List Value)) (p : Program) :
    Prop where
  keys : p.functions.keys = (definitions.map Prod.fst).eraseDups
  /-- The last entry of a name is loaded as it would be by itself and at any index. -/
  last : ∀ before e after, entries = before ++ e :: after →
    (∀ e' ∈ after, declaredName? e' ≠ declaredName? e) →
    ∀ i, ∃ f n l, (loadFunction (some maxUnrolled) i e).run ⟨[], .empty, 0⟩ = .ok ((f, n), l) ∧
      declaredName? e = some f.name ∧ p.function? f.name = some f
  redefinitions : p.warnings.filter (fun w => w.IsRedefinition) =
    (repeated (definitions.map Prod.fst)).map fun e => redefinition e.2 e.1
  length_redefinitions : (p.warnings.filter fun w => w.IsRedefinition).length =
    entries.length - (definitions.map Prod.fst).eraseDups.length

theorem charge_le_of_mem {s : Source} {d : String × List Value} (h : d ∈ s.functions) :
    charge (outline d.2).loops ≤ charge s.loops := by
  obtain ⟨before, after, hsplit⟩ := List.append_of_mem h
  simp only [Source.loops, Source.loopsOf, hsplit, List.flatMap_append, List.flatMap_cons, charge_append]
  omega

section

variable {v : Value} {s : Source} {p : Program} (hs : source? v = some s) (h : loadValue v = .ok p)

include hs h

theorem describes_of_loadValue : s.Describes p ∧ charge s.loops ≤ maxUnrolled := by
  obtain ⟨_, hs', hdescribes⟩ := source_of_loadValue h
  cases hs.symm.trans hs'
  exact hdescribes

theorem filter_redefinitions : p.warnings.filter (fun w => w.IsRedefinition) =
    (repeated (s.functions.map Prod.fst)).map fun e => redefinition e.2 e.1 := by
  obtain ⟨r⟩ := nonempty_remarks
  have hactions : (r.warnings (.ofRoot "actions") s.actions).filter (fun w => w.IsRedefinition) = [] :=
    List.filter_eq_nil_iff.mpr fun w hw => by simpa using r.plain _ _ w hw
  rw [(r.of_loadValue hs h).1, List.filter_append, hactions, List.append_nil]
  exact filter_told (fun d => r.plain _ _) [] s.functions

theorem function?_of_last {before after : List Value} {e : Value}
    (hmap : (before ++ e :: after).mapM declared? = some s.functions)
    (hlast : ∀ e' ∈ after, declaredName? e' ≠ declaredName? e) (i : Nat) :
    ∃ f n l, (loadFunction (some maxUnrolled) i e).run ⟨[], .empty, 0⟩ = .ok ((f, n), l) ∧
      declaredName? e = some f.name ∧ p.function? f.name = some f := by
  obtain ⟨hdescribes, hcharge⟩ := describes_of_loadValue hs h
  obtain ⟨ds, _, -, hrest, hsplit⟩ := exists_append_of_mapM hmap
  obtain ⟨d, ds', hd, hds', rfl⟩ := exists_cons_of_mapM hrest
  have hname : declaredName? e = some d.1 := by rw [declaredName?, hd, Option.map_some]
  have hafter : d.1 ∉ ds'.map Prod.fst := by
    intro hmem
    obtain ⟨d', hd', heq⟩ := List.mem_map.mp hmem
    have hmem' : some d'.1 ∈ after.map declaredName? := by
      rw [map_declaredName hds']
      exact List.mem_map.mpr ⟨d', hd', rfl⟩
    obtain ⟨e', he', hname'⟩ := List.mem_map.mp hmem'
    exact hlast e' he' (by rw [hname', heq, hname])
  have hmem : d ∈ s.functions := by simp [hsplit]
  obtain ⟨l, hrun⟩ := exists_run_of_agrees (agrees_loadFunction hd i)
    (Nat.le_trans (charge_le_of_mem hmem) hcharge)
  refine ⟨_, _, l, hrun, hname, ?_⟩
  rw [function?, hdescribes.functions, hsplit]
  exact Source.get?_declare_last hafter

theorem lastWins_of_source {entries : List Value} (hmap : entries.mapM declared? = some s.functions) :
    LastWins entries s.functions p := by
  refine ⟨?keys, ?last, filter_redefinitions hs h, ?length⟩
  case keys => rw [(describes_of_loadValue hs h).1.functions, Source.keys_declare]
  case last =>
    rintro before e after rfl
    exact function?_of_last hs h hmap
  case length =>
    have hlength : entries.length = s.functions.length := by
      simpa using congrArg List.length (map_declaredName hmap)
    have hnames := length_repeated (s.functions.map Prod.fst)
    rw [List.length_map] at hnames
    rw [filter_redefinitions hs h, List.length_map, hlength]
    omega

end

end Program

end BlockRobot
