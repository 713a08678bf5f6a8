import Cpu6502.Assembly
import Cpu6502.Disassembly
import Cpu6502.Engine.Limit
import Cpu6502.Engine.Log
import Cpu6502.Engine.Run
import Cpu6502.Engine.Step
import Cpu6502.Engine.TraceEvent
import Cpu6502.Instruction.Exec
import Cpu6502.Instruction.Fault
import Cpu6502.Instruction.Operand
import Cpu6502.Instruction.Semantics
import Cpu6502.Instruction.Table
import Cpu6502.Json.State
import Cpu6502.Main
import Cpu6502.Processor.Basic
import Cpu6502.Processor.Flags
import Cpu6502.Processor.Memory
import Cpu6502.Processor.Query
import Cpu6502.Processor.Registers
import Cpu6502.Processor.Ticks
import Cpu6502.Processor.Value
import Cpu6502.Program.Address
import Cpu6502.Program.Load
import Cpu6502.Text.Blank
import Cpu6502.Text.Hex
import Cpu6502.Text.Number
import Cpu6502.Text.Pieces
import Cpu6502.Text.Quoted
import Cpu6502.Text.Visible
import Cpu6502.Proofs.Assembly.RoundTrip
import Cpu6502.Proofs.Execution.Manual
import Cpu6502.Proofs.Execution.Relocation
import Cpu6502.Proofs.Execution.Run
import Cpu6502.Proofs.Execution.Watching
import Cpu6502.Proofs.Execution.Splitting
import Cpu6502.Proofs.Execution.Bounds
import Cpu6502.Proofs.Execution.Failure
import Cpu6502.Proofs.Assembly.Soundness
import Cpu6502.Proofs.Execution.Tracing
import Cpu6502.Proofs.Assembly.Reassembly
import Cpu6502.Proofs.Execution.Decoding
import Cpu6502.Proofs.Assembly.Composition
import Cpu6502.Proofs.Assembly.Verdict
import Cpu6502.Proofs.Execution.Frame
import Cpu6502.Proofs.Execution.Operation
import Cpu6502.Proofs.CommandLine
import Cpu6502.Proofs.Execution.Halting
import Cpu6502.Proofs.Reachable
import Cpu6502.Proofs.Execution.Indifference
import Cpu6502.Proofs.CommandLine.Proceedings
import Cpu6502.Proofs.CommandLine.Lines
import Cpu6502.Proofs.CommandLine.Report
import Cpu6502.Proofs.Assembly.Writing
import Cpu6502.Proofs.CommandLine.Sources
import Cpu6502.Proofs.CommandLine.Verbosity
import Cpu6502.Proofs.Memory
import Cpu6502.Proofs.Execution.Reset
import Cpu6502.Proofs.Execution.StraightLine
import Cpu6502.Proofs.Execution.Forward
import Cpu6502.Proofs.Execution.MultiByte
import Cpu6502.Proofs.Execution.CountingLoop
import Cpu6502.Proofs.Assembly.Style
import Cpu6502.Proofs.Disassembly.Coverage
import Cpu6502.Proofs.Program.Numeral
import Cpu6502.Proofs.Program.HexList
import Cpu6502.Proofs.Program.Address
import Cpu6502.Proofs.Query
import Cpu6502.Proofs.Execution.Logging
import Cpu6502.Proofs.Ticks
import Cpu6502.Proofs.Execution.TraceText
import Cpu6502.Proofs.Json.State
import Cpu6502.Proofs.Table
