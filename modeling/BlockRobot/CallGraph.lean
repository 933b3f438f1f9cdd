import BlockRobot.Program.Basic

/-!
# The call graph

The nodes are the top-level actions and the functions, and there is an edge for every call of a
function that is defined. Nodes are numbered: the actions are node 0, and the functions follow in
the order of their table.
-/

namespace BlockRobot

/-- A function whose key in the table is not its name. -/
structure NameMismatch where
  key : String
  name : String
  deriving DecidableEq, Repr

def NameMismatch.message (e : NameMismatch) : String :=
  "Function registered as '" ++ e.key ++ "' is named '" ++ e.name ++ "'"

inductive CallNode where
  | main
  | function (name : String) (size : Nat)
  deriving DecidableEq, Repr

namespace CallNode

def name : CallNode → String
  | .main => "main"
  | .function name _ => name

def isMain : CallNode → Bool
  | .main => true
  | .function _ _ => false

end CallNode

/-- A call of the node `callee` in the node `caller`. -/
structure CallEdge where
  caller : Nat
  callee : Nat
  inLoop : Bool
  path : Path
  deriving DecidableEq, Repr

def CallEdge.label (e : CallEdge) : String := if e.inLoop then "calls_in_loop" else "calls"

inductive CallFinding where
  | unresolvedCall (name caller : String) (path : Path)
  | recursion (cycle : List String)
  | unusedFunction (name : String)
  deriving DecidableEq, Repr

namespace CallFinding

def message : CallFinding → String
  | .unresolvedCall name caller path =>
    "Call to undefined function '" ++ name ++ "' in " ++ caller ++ " at " ++ path.render
  | .recursion [name] => "Function '" ++ name ++ "' calls itself"
  | .recursion cycle => "Functions call each other in a cycle: " ++ " -> ".intercalate cycle
  | .unusedFunction name => "Function '" ++ name ++ "' is never called"

def isError : CallFinding → Bool
  | .unresolvedCall _ _ _ => true
  | .recursion _ | .unusedFunction _ => false

end CallFinding

structure CallGraph where
  nodes : List CallNode
  edges : List CallEdge
  unresolved : List CallFinding

namespace CallGraph

/-! ## Building -/

def indexIn (names : List String) (name : String) : Option Nat := (names.idxOf? name).map (· + 1)

def callsIn (path : Path) (body : List Statement) : List (Path × Bool × String) :=
  (Statement.placesOf path 0 false body).filterMap fun p =>
    match p.statement with
    | .call name => some (p.path, p.inLoop, name)
    | _ => none

def classify (names : List String) (caller : Nat) (callerName : String)
    (calls : List (Path × Bool × String)) : List CallEdge × List CallFinding :=
  (calls.filterMap fun c => (indexIn names c.2.2).map fun callee => ⟨caller, callee, c.2.1, c.1⟩,
    calls.filterMap fun c =>
      if (indexIn names c.2.2).isNone then some (.unresolvedCall c.2.2 callerName c.1) else none)

def callers (index : Nat) : Entries Function → List (Nat × String × List (Path × Bool × String))
  | [] => []
  | (key, f) :: rest =>
    (index, key, callsIn (.ofRoot ("functions[" ++ key ++ "].body")) f.body) :: callers (index + 1) rest

def mismatch? (functions : Table Function) : Option NameMismatch :=
  (functions.entries.find? fun e => e.1 != e.2.name).map fun e => ⟨e.1, e.2.name⟩

def ofProgram (p : Program) : Except NameMismatch CallGraph :=
  match mismatch? p.functions with
  | some e => .error e
  | none =>
    let names := p.functions.keys
    let calls := (0, "main", callsIn (.ofRoot "actions") p.actions) :: callers 1 p.functions.entries
    let found := calls.map fun c => classify names c.1 c.2.1 c.2.2
    .ok {
      nodes := .main :: p.functions.entries.map fun e =>
        .function e.1 (Statement.nodesOf e.2.body).length
      edges := found.flatMap Prod.fst
      unresolved := found.flatMap Prod.snd }

/-! ## Neighbours -/

def nameOf (g : CallGraph) (v : Nat) : String := (g.nodes[v]?.map CallNode.name).getD ""

/-- The function names by number, from 1 on. -/
def functionNames (g : CallGraph) : List String := (g.nodes.drop 1).map CallNode.name

def function? (g : CallGraph) (name : String) : Option Nat := indexIn g.functionNames name

/-- The edges into a node, the latest first. -/
def incoming (g : CallGraph) (v : Nat) : List CallEdge := (g.edges.filter (·.callee == v)).reverse

/-- The edges out of a node, the latest first. -/
def outgoing (g : CallGraph) (v : Nat) : List CallEdge := (g.edges.filter (·.caller == v)).reverse

def callersOf (g : CallGraph) (v : Nat) : List Nat := (g.incoming v).map CallEdge.caller

def calleesOf (g : CallGraph) (v : Nat) : List Nat := (g.outgoing v).map CallEdge.callee

def loopCallSites (g : CallGraph) (v : Nat) : List Path :=
  ((g.incoming v).filter (·.inLoop)).map CallEdge.path

/-! ## Reachability -/

def unseen (g : CallGraph) (seen : List Nat) : List Nat :=
  (List.range g.nodes.length).filter fun v => !seen.contains v

theorem unseen_cons_lt {g : CallGraph} {seen : List Nat} {v : Nat} (hv : v < g.nodes.length)
    (hs : seen.contains v = false) : (g.unseen (v :: seen)).length < (g.unseen seen).length := by
  have hsub : g.unseen (v :: seen) = (g.unseen seen).filter (· != v) := by
    simp only [unseen, List.filter_filter]
    apply List.filter_congr
    intro x _
    by_cases h : x = v <;> simp [h]
  rw [hsub]
  apply List.length_filter_lt_length_iff_exists.mpr
  exact ⟨v, by simpa [unseen, hv] using hs, by simp⟩

/-- The nodes that `todo` leads to, added to those in `seen`. -/
def explore (g : CallGraph) (todo seen : List Nat) : List Nat :=
  match todo with
  | [] => seen
  | v :: todo =>
    if _h : v < g.nodes.length ∧ seen.contains v = false then
      explore g (g.calleesOf v ++ todo) (v :: seen)
    else explore g todo seen
termination_by ((g.unseen seen).length, todo.length)
decreasing_by
  · exact Prod.Lex.left _ _ (unseen_cons_lt _h.1 _h.2)
  · exact Prod.Lex.right _ (by simp)

/-- The nodes that `v` reaches over any number of calls. -/
def reachableFrom (g : CallGraph) (v : Nat) : List Nat := g.explore [v] []

/-- The nodes that `v` reaches over one call or more. -/
def reachedBy (g : CallGraph) (v : Nat) : List Nat := g.explore (g.calleesOf v) []

inductive Visit where
  | enter (v : Nat)
  | leave (v : Nat)

/-- The nodes that a depth-first walk leaves on the steps `todo`, in the order in which it leaves
them. It enters no node of `seen`, and leaves a node when it has left all that the node calls. -/
def walk (g : CallGraph) (todo : List Visit) (seen : List Nat) : List Nat :=
  match todo with
  | [] => []
  | .leave v :: todo => v :: walk g todo seen
  | .enter v :: todo =>
    if _h : v < g.nodes.length ∧ seen.contains v = false then
      walk g ((g.calleesOf v).map .enter ++ .leave v :: todo) (v :: seen)
    else walk g todo seen
termination_by ((g.unseen seen).length, todo.length)
decreasing_by
  · exact Prod.Lex.right _ (by simp)
  · exact Prod.Lex.left _ _ (unseen_cons_lt _h.1 _h.2)
  · exact Prod.Lex.right _ (by simp)

def departures (g : CallGraph) : List Nat := g.walk ((List.range g.nodes.length).map .enter) []

def sortNames (names : List String) : List String := names.mergeSort fun a b => !decide (b < a)

def functionNodes (g : CallGraph) : List Nat := (List.range g.nodes.length).drop 1

def reachableFunctions (g : CallGraph) : List String :=
  let reached := g.reachableFrom 0
  sortNames ((g.functionNodes.filter reached.contains).map g.nameOf)

/-! ## Findings -/

def unusedFunctions (g : CallGraph) : List CallFinding :=
  let reached := g.reachableFrom 0
  (sortNames ((g.functionNodes.filter fun v => !reached.contains v).map g.nameOf)).map .unusedFunction

def closure (g : CallGraph) : List (List Nat) := (List.range g.nodes.length).map g.reachedBy

def leads (closure : List (List Nat)) (u v : Nat) : Bool := (closure.getD u []).contains v

/-- The functions that `v` leads to and that lead to `v`. -/
def cycleOf (g : CallGraph) (closure : List (List Nat)) (v : Nat) : List Nat :=
  g.functionNodes.filter fun u => leads closure v u && leads closure u v

/-- The groups of functions that call each other, each once, by their lowest number. -/
def cycles (g : CallGraph) : List (List Nat) :=
  let closure := g.closure
  g.functionNodes.filterMap fun v =>
    let cycle := g.cycleOf closure v
    if cycle.head? = some v then some cycle else none

def lastLeft (departures vs : List Nat) : Nat := (vs.map departures.idxOf).foldl max 0

/-- The groups of functions that call each other, each once and with sorted names, sorted by their
messages. Of two with one message, the group that a depth-first walk leaves first comes first. -/
def recursion (g : CallGraph) : List CallFinding :=
  let departures := g.departures
  let cycles := g.cycles.mergeSort fun a b => decide (lastLeft departures a ≤ lastLeft departures b)
  let findings := cycles.map fun cycle => CallFinding.recursion (sortNames (cycle.map g.nameOf))
  findings.mergeSort fun a b => !decide (b.message < a.message)

def errors (g : CallGraph) : List CallFinding := g.unresolved

/-- Recursion may end by a condition, so it is no error. -/
def warnings (g : CallGraph) : List CallFinding := g.recursion ++ g.unusedFunctions

end CallGraph

end BlockRobot
