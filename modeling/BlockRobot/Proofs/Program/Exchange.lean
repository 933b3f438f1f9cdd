import BlockRobot.Proofs.Program.Definitions
import BlockRobot.Proofs.Program.Paths

/-!
# Exchanging definitions

A definition can be moved past one of another name: only the order of the functions and of the warnings
changes, and the numbers of the two entries in warnings. Main statements: `Program.exists_exchanged`, and with
it all that a list of functions means for a program, `Program.functions_of_loadValue`.
-/

namespace BlockRobot

namespace Program

open Block
open Json (Value field?)

/-! ## The table -/

namespace Source

theorem get?_declare_congr {table table' : Table Function} (h : ∀ name, table.get? name = table'.get? name)
    (ds : List (String × List Value)) (name : String) :
    (declare table ds).get? name = (declare table' ds).get? name := by
  induction ds generalizing table table' with
  | nil => exact h name
  | cons d rest ih =>
    refine ih fun other => ?_
    rw [Table.get?_insert, Table.get?_insert, h]

theorem get?_declare_exchange (table : Table Function) (ds₁ ds₂ : List (String × List Value))
    {d d' : String × List Value} (h : d.1 ≠ d'.1) (name : String) :
    (declare table (ds₁ ++ d' :: d :: ds₂)).get? name =
      (declare table (ds₁ ++ d :: d' :: ds₂)).get? name := by
  rw [declare_append, declare_append]
  refine get?_declare_congr (fun other => ?_) ds₂ name
  simp only [Table.get?_insert]
  by_cases hd : d.1 = other
  · rw [if_pos hd, if_neg (fun hd' => h (hd.trans hd'.symm)), if_pos hd]
  · rw [if_neg hd, if_neg hd]

end Source

theorem perm_of_get?_eq {α : Type} {s t : Table α} (h : ∀ key, s.get? key = t.get? key) :
    s.entries.Perm t.entries := by
  refine (List.perm_ext_iff_of_nodup (.of_map _ s.nodup) (.of_map _ t.nodup)).mpr ?_
  rintro ⟨key, a⟩
  rw [← Entries.get?_eq_some_iff s.nodup, ← Entries.get?_eq_some_iff t.nodup]
  exact (h key).congr_left

/-! ## The warnings -/

/-- The warning with the numbers of the entries `n` and `n + 1` exchanged. -/
def renumbered (n : Nat) (w : Warning) : Warning :=
  if w.path = (entryPath n).render then { w with path := (entryPath (n + 1)).render }
  else if w.path = (entryPath (n + 1)).render then { w with path := (entryPath n).render }
  else w

theorem entryPath_inj {i j : Nat} (h : (entryPath i).render = (entryPath j).render) : i = j := by
  have hplain (k : Nat) : ∀ s ∈ (entryPath k).steps, s.Plain :=
    List.forall_mem_singleton.mpr trivial
  have hsteps : Path.renderSteps (entryPath i).steps = Path.renderSteps (entryPath j).steps := by
    have hchars := congrArg String.toList h
    simp only [Path.render, String.toList_append] at hchars
    exact String.toList_inj.mp (List.append_cancel_left hchars)
  cases Path.renderSteps_injective (hplain i) (hplain j) hsteps
  rfl

theorem renumbered_first (n : Nat) (name : String) :
    renumbered n (redefinition n name) = redefinition (n + 1) name := if_pos rfl

theorem renumbered_second (n : Nat) (name : String) :
    renumbered n (redefinition (n + 1) name) = redefinition n name := by
  have hne : (redefinition (n + 1) name).path ≠ (entryPath n).render := fun h => by
    have := entryPath_inj h
    omega
  exact (if_neg hne).trans (if_pos rfl)

def Elsewhere (ws : List Warning) : Prop := ∀ w ∈ ws, ∀ i, w.path ≠ (entryPath i).render

theorem renumbered_of_ne {n : Nat} {w : Warning} (h : w.path ≠ (entryPath n).render)
    (h' : w.path ≠ (entryPath (n + 1)).render) : renumbered n w = w :=
  (if_neg h).trans (if_neg h')

theorem Elsewhere.map_renumbered {ws : List Warning} (h : Elsewhere ws) (n : Nat) :
    ws.map (renumbered n) = ws :=
  (List.map_congr_left fun w hw => renumbered_of_ne (h w hw n) (h w hw (n + 1))).trans (List.map_id ws)

theorem elsewhere_bodyPath {name : String} {ws : List Warning} (h : Under (bodyPath name) ws) :
    Elsewhere ws := by
  intro w hw i hpath
  have hprefix := h w hw
  rw [hpath] at hprefix
  simp only [bodyPath, entryPath, Path.field, Path.index, Path.render_extend, Path.renderSteps,
    Path.Step.render, String.toList_append, List.append_assoc, List.prefix_append_right_inj] at hprefix
  exact absurd (List.cons_prefix_cons.mp hprefix).1 (by decide)

theorem elsewhere_actions {ws : List Warning} (h : Under (.ofRoot "actions") ws) : Elsewhere ws := by
  intro w hw i hpath
  have hactions : "actions".toList <+: (entryPath i).render.toList := hpath ▸ h w hw
  have hfunctions : "functions".toList <+: (entryPath i).render.toList := by
    rw [Path.render, String.toList_append]
    exact List.prefix_append _ _
  exact absurd (List.prefix_of_prefix_length_le hactions hfunctions (by decide)) (by decide)

section

variable {remarks : String × List Value → List Warning}

theorem told_append (before : List String) (ds ds' : List (String × List Value)) :
    told remarks before (ds ++ ds') =
      told remarks before ds ++ told remarks (before ++ ds.map Prod.fst) ds' := by
  induction ds generalizing before with
  | nil => simp [told]
  | cons d rest ih => simp [told, ih, List.append_assoc]

theorem told_perm {before before' : List String} (h : before.Perm before')
    (ds : List (String × List Value)) : told remarks before ds = told remarks before' ds := by
  induction ds generalizing before before' with
  | nil => rfl
  | cons d rest ih =>
    rw [told, told, h.length_eq, ih (h.append_right _)]
    simp only [h.mem_iff]

theorem map_renumbered_told {ds : List (String × List Value)} (h : ∀ d ∈ ds, Elsewhere (remarks d))
    {before : List String} {n : Nat} (hn : before.length + ds.length ≤ n ∨ n + 1 < before.length) :
    (told remarks before ds).map (renumbered n) = told remarks before ds := by
  induction ds generalizing before with
  | nil => rfl
  | cons d rest ih =>
    rw [List.forall_mem_cons] at h
    rw [List.length_cons] at hn
    have hrest : (told remarks (before ++ [d.1]) rest).map (renumbered n) = told remarks (before ++ [d.1]) rest := by
      refine ih h.2 ?_
      rw [List.length_append, List.length_singleton]
      omega
    have hentry : renumbered n (redefinition before.length d.1) = redefinition before.length d.1 :=
      renumbered_of_ne (fun heq => by have := entryPath_inj heq; omega)
        (fun heq => by have := entryPath_inj heq; omega)
    rw [told, List.map_append, List.map_append, h.1.map_renumbered, hrest]
    split
    · rw [List.map_singleton, hentry]
    · rfl

theorem told_exchange {ds₁ ds₂ : List (String × List Value)} {d d' : String × List Value} (h : d.1 ≠ d'.1)
    (helsewhere : ∀ e ∈ ds₁ ++ d :: d' :: ds₂, Elsewhere (remarks e)) :
    (told remarks [] (ds₁ ++ d' :: d :: ds₂)).Perm
      ((told remarks [] (ds₁ ++ d :: d' :: ds₂)).map (renumbered ds₁.length)) := by
  simp only [List.forall_mem_append, List.forall_mem_cons] at helsewhere
  obtain ⟨h₁, hd, hd', h₂⟩ := helsewhere
  have hnames : (ds₁.map Prod.fst).length = ds₁.length := List.length_map _
  have hfirst : (told remarks [] ds₁).map (renumbered ds₁.length) = told remarks [] ds₁ :=
    map_renumbered_told h₁ (.inl (by simp))
  have hlast : (told remarks (ds₁.map Prod.fst ++ [d.1] ++ [d'.1]) ds₂).map (renumbered ds₁.length) =
      told remarks (ds₁.map Prod.fst ++ [d'.1] ++ [d.1]) ds₂ := by
    rw [map_renumbered_told h₂ (.inr (by simp))]
    refine told_perm ?_ ds₂
    rw [List.append_assoc, List.append_assoc]
    exact (List.Perm.swap d'.1 d.1 []).append_left _
  have hmem : d.1 ∈ ds₁.map Prod.fst ++ [d'.1] ↔ d.1 ∈ ds₁.map Prod.fst := by simp [h]
  have hmem' : d'.1 ∈ ds₁.map Prod.fst ++ [d.1] ↔ d'.1 ∈ ds₁.map Prod.fst := by simp [h.symm]
  rw [told_append, told_append, List.map_append, hfirst, List.nil_append]
  refine List.Perm.append_left _ ?_
  simp only [told, List.map_append, hd.map_renumbered, hd'.map_renumbered, hlast, hmem, hmem',
    List.length_append, List.length_singleton, hnames, apply_ite (List.map (renumbered ds₁.length)),
    List.map_singleton, List.map_nil, renumbered_first, renumbered_second]
  exact List.perm_append_comm_assoc _ _ _

end

/-! ## Programs -/

/-- The programs differ in the order of functions and warnings and in the numbers of the entries `n` and
`n + 1` at most. -/
structure Exchanged (n : Nat) (p q : Program) : Prop where
  version : q.version = p.version
  name : q.name = p.name
  functions : q.functions.entries.Perm p.functions.entries
  actions : q.actions = p.actions
  blockCount : q.blockCount = p.blockCount
  unrolled : q.unrolled = p.unrolled
  warnings : q.warnings.Perm (p.warnings.map (renumbered n))

theorem source?_exchange {fields : Json.Fields} {s : Source} (hs : source? (.obj fields) = some s)
    {xs ys : List Value} {e e' : Value}
    (hentries : allowList "functions" fields = .ok (xs ++ e :: e' :: ys)) :
    ∃ ds d d' ds', ds.length = xs.length ∧ declared? e = some d ∧ declared? e' = some d' ∧
      s.functions = ds ++ d :: d' :: ds' ∧
      source? (.obj (Entries.put "functions" (.arr (xs ++ e' :: e :: ys)) fields)) =
        some ⟨ds ++ d' :: d :: ds', s.actions⟩ := by
  obtain ⟨_, version, _, ⟨⟩, hversion, hblocks, hentries', hmap⟩ := exists_fields_of_source hs
  cases hentries.symm.trans hentries'
  obtain ⟨ds, _, hds, hrest, hsplit⟩ := exists_append_of_mapM hmap
  obtain ⟨d, _, hd, hrest', rfl⟩ := exists_cons_of_mapM hrest
  obtain ⟨d', ds', hd', hds', rfl⟩ := exists_cons_of_mapM hrest'
  have hlength : ds.length = xs.length := by
    simpa using (congrArg List.length (map_declaredName hds)).symm
  have hput : allowList "functions" (Entries.put "functions" (.arr (xs ++ e' :: e :: ys)) fields) =
      .ok (xs ++ e' :: e :: ys) := by
    simp only [allowList, requireList, field?_put, if_true]
  refine ⟨ds, d, d', ds', hlength, hd, hd', hsplit, ?_⟩
  simp only [source?, requireString_put (by decide : "functions" ≠ "version"), hversion,
    requireList_put (by decide : "functions" ≠ "actions"), hblocks, hput]
  simp [hds, hd, hd', hds']

theorem exchanged_of_sources {v v' : Value} {p q : Program} {ds ds' : List (String × List Value)}
    {d d' : String × List Value} {blocks : List Value} (hs : source? v = some ⟨ds ++ d :: d' :: ds', blocks⟩)
    (hs' : source? v' = some ⟨ds ++ d' :: d :: ds', blocks⟩) (hne : d.1 ≠ d'.1)
    (hp : loadValue v = .ok p) (hq : loadValue v' = .ok q) (hversion : q.version = p.version)
    (hname : q.name = p.name) : Exchanged ds.length p q := by
  obtain ⟨hdescribes, hcharge⟩ := describes_of_loadValue hs hp
  obtain ⟨hdescribes', -⟩ := describes_of_loadValue hs' hq
  obtain ⟨r⟩ := nonempty_remarks
  obtain ⟨hwarnings, hkinds⟩ := r.of_loadValue hs hp
  obtain ⟨hwarnings', hkinds'⟩ := r.of_loadValue hs' hq
  have hactions : charge (outline blocks).loops ≤ maxUnrolled := by
    refine Nat.le_trans ?_ hcharge
    rw [Source.loops, charge_append]
    exact Nat.le_add_left _ _
  refine ⟨hversion, hname, ?functions, ?actions, ?count, ?unrolled, ?warnings⟩
  case functions =>
    rw [hdescribes.functions, hdescribes'.functions]
    exact perm_of_get?_eq (Source.get?_declare_exchange .empty ds ds' hne)
  case actions => rw [hdescribes.actions, hdescribes'.actions]
  case count =>
    rw [hdescribes.blockCount, hdescribes'.blockCount]
    simp only [Source.countOf, sumOver_append, sumOver]
    omega
  case unrolled =>
    ext k
    rw [hkinds, hkinds']
    simp only [List.flatMap_append, List.flatMap_cons, List.mem_append]
    tauto
  case warnings =>
    rw [hwarnings, hwarnings', List.map_append,
      (elsewhere_actions (r.under hactions)).map_renumbered]
    refine (told_exchange hne fun e he => ?_).append_right _
    exact elsewhere_bodyPath (r.under (Nat.le_trans (charge_le_of_mem he) hcharge))

theorem exists_exchanged {fields : Json.Fields} {s : Source} {p : Program}
    (hs : source? (.obj fields) = some s) (h : loadValue (.obj fields) = .ok p) {xs ys : List Value}
    {e e' : Value} (hentries : allowList "functions" fields = .ok (xs ++ e :: e' :: ys))
    (hne : declaredName? e ≠ declaredName? e') :
    ∃ q, loadValue (.obj (Entries.put "functions" (.arr (xs ++ e' :: e :: ys)) fields)) = .ok q ∧
      Exchanged xs.length p q := by
  obtain ⟨-, hcharge⟩ := describes_of_loadValue hs h
  obtain ⟨ds, d, d', ds', hlength, hd, hd', hsplit, hs'⟩ := source?_exchange hs hentries
  obtain ⟨functions, blocks⟩ := s
  obtain rfl : functions = ds ++ d :: d' :: ds' := hsplit
  have hcharge' : charge (Source.mk (ds ++ d' :: d :: ds') blocks).loops ≤ maxUnrolled := by
    simp only [Source.loops, Source.loopsOf, List.flatMap_append, List.flatMap_cons, charge_append]
      at hcharge ⊢
    omega
  obtain ⟨q, hq, -⟩ := loadValueWith_of_source hs' fun k (hk : some maxUnrolled = some k) => by
    cases hk
    exact hcharge'
  obtain ⟨hversion, hname⟩ := copied_of_loadValueWith h
  obtain ⟨hversion', hname'⟩ := copied_of_loadValueWith hq
  rw [requireString_put (by decide)] at hversion'
  have hnames : d.1 ≠ d'.1 := fun heq => hne (by simp [declaredName?, hd, hd', heq])
  refine ⟨q, hq, hlength ▸ exchanged_of_sources hs hs' hnames h hq
    (Except.ok.inj (hversion'.symm.trans hversion)) ?_⟩
  rw [hname, hname', stringUnder?, stringUnder?, List.findSome?_singleton, List.findSome?_singleton,
    field?_put, if_neg (by decide)]

/-- The functions of a program that loads. -/
theorem functions_of_loadValue {v : Value} {p : Program} (h : loadValue v = .ok p) :
    ∃ fields blocks entries definitions, v = .obj fields ∧
      requireList "actions" fields = .ok blocks ∧ allowList "functions" fields = .ok entries ∧
      entries.mapM declared? = some definitions ∧
      LastWins entries definitions p ∧
      p.blockCount = count blocks + sumOver (fun d => count d.2) definitions ∧
      ∀ xs e e' ys, entries = xs ++ e :: e' :: ys → declaredName? e ≠ declaredName? e' →
        ∃ q, loadValue (.obj (Entries.put "functions" (.arr (xs ++ e' :: e :: ys)) fields)) = .ok q ∧
          Exchanged xs.length p q := by
  obtain ⟨s, hs, hdescribes, -⟩ := source_of_loadValue h
  obtain ⟨fields, _, entries, rfl, -, hblocks, hentries, hmap⟩ := exists_fields_of_source hs
  refine ⟨fields, s.actions, entries, s.functions, rfl, hblocks, hentries, hmap,
    lastWins_of_source hs h hmap, hdescribes.blockCount, ?_⟩
  rintro xs e e' ys rfl hne
  exact exists_exchanged hs h hentries hne

/-- A program with a function that is defined again, after another one. -/
def remade : Value :=
  .obj [("version", .str "1"), ("actions", .arr [turnBlock]), ("functions", .arr [
    .obj [("name", .str "spin"), ("body", .arr [turnBlock, .num (.int 7)])],
    .obj [("name", .str "hop"), ("body", .arr [turnBlock])],
    .obj [("name", .str "spin"), ("actions", .arr [repeatBlock 2 [turnBlock]])]])]

theorem functions_of_remade :
    ∃ p, loadValue remade = .ok p ∧ (p.functions.keys = ["spin", "hop"] ∧
      (p.function? "spin").map (fun f => f.body.length) = some 2 ∧ p.blockCount = 5 ∧ p.warnings = [
        ⟨"functions.spin[1]", "block is not an object; ignored"⟩,
        ⟨"functions[2]", "function 'spin' is defined more than once; the last definition wins"⟩]) ∧
      ∃ fields blocks entries definitions, remade = .obj fields ∧
        requireList "actions" fields = .ok blocks ∧ allowList "functions" fields = .ok entries ∧
        entries.mapM declared? = some definitions ∧
        LastWins entries definitions p ∧
        p.blockCount = count blocks + sumOver (fun d => count d.2) definitions ∧
        ∀ xs e e' ys, entries = xs ++ e :: e' :: ys → declaredName? e ≠ declaredName? e' →
          ∃ q, loadValue (.obj (Entries.put "functions" (.arr (xs ++ e' :: e :: ys)) fields)) = .ok q ∧
            Exchanged xs.length p q := by
  obtain ⟨p, hp, hfound⟩ : ∃ p, loadValue remade = .ok p ∧ decide (p.functions.keys = ["spin", "hop"] ∧
      (p.function? "spin").map (fun f => f.body.length) = some 2 ∧ p.blockCount = 5 ∧ p.warnings = [
        ⟨"functions.spin[1]", "block is not an object; ignored"⟩,
        ⟨"functions[2]", "function 'spin' is defined more than once; the last definition wins"⟩]) = true :=
    exists_of_any (by decide +kernel)
  exact ⟨p, hp, of_decide_eq_true hfound, functions_of_loadValue hp⟩

end Program

end BlockRobot
