import BlockRobot.CallGraph
import BlockRobot.CommandLine.Arguments
import BlockRobot.CommandLine.Commands
import BlockRobot.CommandLine.Level
import BlockRobot.CommandLine.Report
import BlockRobot.Decimal.Basic
import BlockRobot.Decimal.Shortest
import BlockRobot.Entries
import BlockRobot.Json.Decode
import BlockRobot.Json.Fault
import BlockRobot.Json.Literal
import BlockRobot.Json.Numeral
import BlockRobot.Json.Printer
import BlockRobot.Json.Reader
import BlockRobot.Json.Value
import BlockRobot.Main
import BlockRobot.Path
import BlockRobot.Program.Basic
import BlockRobot.Program.Block.Count
import BlockRobot.Program.Block.Operand
import BlockRobot.Program.Block.Reader
import BlockRobot.Program.Condition
import BlockRobot.Program.Expr
import BlockRobot.Program.Kind
import BlockRobot.Program.Lint
import BlockRobot.Program.LoadError
import BlockRobot.Program.Loader
import BlockRobot.Program.Span
import BlockRobot.Program.Statement
import BlockRobot.Program.Tree
import BlockRobot.Proofs.CallGraph.CallBlocks
import BlockRobot.Proofs.CallGraph.Calls
import BlockRobot.Proofs.CallGraph.Chains
import BlockRobot.Proofs.CallGraph.Components
import BlockRobot.Proofs.CallGraph.Reachability
import BlockRobot.Proofs.CallGraph.Recursion
import BlockRobot.Proofs.CallGraph.Search
import BlockRobot.Proofs.CallGraph.Usage
import BlockRobot.Proofs.CommandLine.Check
import BlockRobot.Proofs.CommandLine.Offsets
import BlockRobot.Proofs.CommandLine.Play
import BlockRobot.Proofs.Json.Doubles
import BlockRobot.Proofs.Json.Finite
import BlockRobot.Proofs.Json.Reading
import BlockRobot.Proofs.Program.Blocks
import BlockRobot.Proofs.Program.Definitions
import BlockRobot.Proofs.Program.Exchange
import BlockRobot.Proofs.Program.Ledger
import BlockRobot.Proofs.Program.Literals
import BlockRobot.Proofs.Program.Nodes
import BlockRobot.Proofs.Program.Normal
import BlockRobot.Proofs.Program.Paths
import BlockRobot.Proofs.Program.Places
import BlockRobot.Proofs.Program.Outline
import BlockRobot.Proofs.Program.Reading
import BlockRobot.Proofs.Program.Rewriting
import BlockRobot.Proofs.Program.RoundTrip
import BlockRobot.Proofs.Program.Source
import BlockRobot.Proofs.Program.Spans
import BlockRobot.Proofs.Program.Undefined
import BlockRobot.Proofs.Program.Unrolling
import BlockRobot.Proofs.Program.Wholes
import BlockRobot.Proofs.Program.WrittenOut
import BlockRobot.Proofs.Run.Activations
import BlockRobot.Proofs.Run.BoxRule
import BlockRobot.Proofs.Run.Collecting
import BlockRobot.Proofs.Run.Expansion
import BlockRobot.Proofs.Run.Goals
import BlockRobot.Proofs.Run.InPlace
import BlockRobot.Proofs.Run.Limits
import BlockRobot.Proofs.Run.Lint
import BlockRobot.Proofs.Run.Reach
import BlockRobot.Proofs.Run.Replay
import BlockRobot.Proofs.Run.Rollback
import BlockRobot.Proofs.Run.Sight
import BlockRobot.Proofs.Run.StepBound
import BlockRobot.Proofs.Run.Steps
import BlockRobot.Proofs.Run.Structural
import BlockRobot.Proofs.Run.Unfolding
import BlockRobot.Proofs.Run.Unused
import BlockRobot.Proofs.Run.UsedKinds
import BlockRobot.Proofs.Session.Host
import BlockRobot.Proofs.Session.Live
import BlockRobot.Proofs.Session.Protocol
import BlockRobot.Proofs.Session.Timing
import BlockRobot.Proofs.World.Alike
import BlockRobot.Proofs.World.Conservation
import BlockRobot.Proofs.World.Effects
import BlockRobot.Proofs.World.Picking
import BlockRobot.Proofs.World.Sensors
import BlockRobot.Proofs.World.Tiles
import BlockRobot.Run.Action
import BlockRobot.Run.Eval
import BlockRobot.Run.Failure
import BlockRobot.Run.Goal
import BlockRobot.Run.Limits
import BlockRobot.Run.Machine
import BlockRobot.Run.Progress
import BlockRobot.Run.Queue
import BlockRobot.Run.Simulation
import BlockRobot.Session.Basic
import BlockRobot.Session.Codec
import BlockRobot.Session.Drive
import BlockRobot.Session.Timers
import BlockRobot.Sum
import BlockRobot.Table
import BlockRobot.Text.Blank
import BlockRobot.Text.Case
import BlockRobot.Text.Letter
import BlockRobot.Text.Ranges
import BlockRobot.World.Basic
import BlockRobot.World.Codec
import BlockRobot.World.Position
import BlockRobot.World.Sensor
import BlockRobot.World.Tally
import BlockRobot.Proofs.Program.Budget
import BlockRobot.Proofs.Program.Score
import BlockRobot.Proofs.Program.Segments
