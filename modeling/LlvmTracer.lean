import LlvmTracer.Logger.Trace
import LlvmTracer.Lib.Interleave
import LlvmTracer.Logger.Process
import LlvmTracer.Lib.Run
import LlvmTracer.Logger.Local
import LlvmTracer.Logger.Events
import LlvmTracer.Logger.Window
import LlvmTracer.Logger.Threads
import LlvmTracer.Logger.TraceFiles
import LlvmTracer.Logger.OwnRun
import LlvmTracer.Logger.Handle
import LlvmTracer.Logger.Naming
import LlvmTracer.Logger.Isolation
import LlvmTracer.Logger.Format
import LlvmTracer.Ir.Syntax
import LlvmTracer.Pass.Select
import LlvmTracer.Lib.Emit
import LlvmTracer.Pass.Names
import LlvmTracer.Pass.Inserted
import LlvmTracer.Pass.Lines
import LlvmTracer.Pass.Tracer
import LlvmTracer.Ir.Wf
import LlvmTracer.Pass.Edits
import LlvmTracer.Pass.Plan
import LlvmTracer.Pass.Buffers
import LlvmTracer.Pass.Layout
import LlvmTracer.Pass.Walk
import LlvmTracer.Pass.Stream
import LlvmTracer.Pass.Refusals
import LlvmTracer.Lib.Machine
import LlvmTracer.Pass.Execution
import LlvmTracer.Pass.RecordStream
import LlvmTracer.Pass.Coverage
import LlvmTracer.Pass.Selection
import LlvmTracer.Pass.Placement
import LlvmTracer.Pass.Observer
import LlvmTracer.Pass.SlotNames
import LlvmTracer.Pass.DefUse
import LlvmTracer.Ast.LabelMap
import LlvmTracer.Logger.OpenOnce
import LlvmTracer.Ast.Dump
import LlvmTracer.Ast.Linkage
import LlvmTracer.Ast.RoundTrip
import LlvmTracer.Logger.Nesting
import LlvmTracer.Lib.Activation
import LlvmTracer.Logger.Assertions
import LlvmTracer.Pass.Activations
import LlvmTracer.Pass.InstIds
import LlvmTracer.Pass.BlockIds
import LlvmTracer.Lib.Keyed
import LlvmTracer.Pass.VectorBuffers
import LlvmTracer.Pass.Values
import LlvmTracer.Lib.Bytes
import LlvmTracer.Pass.ValueText
import LlvmTracer.Ast.Visits
import LlvmTracer.Lib.Routes
import LlvmTracer.Ast.Units
import LlvmTracer.Ast.Callers
import LlvmTracer.Pass.Workload
import LlvmTracer.Pass.DebugNames
import LlvmTracer.Pass.MemSize
import LlvmTracer.Pass.Strings
import LlvmTracer.Pass.Typing
import LlvmTracer.Lib.CString
import LlvmTracer.Logger.HexDump
import LlvmTracer.Logger.Status
import LlvmTracer.Pass.FixedPoint
import LlvmTracer.Pass.EntryLayout
import LlvmTracer.Pass.Independence
import LlvmTracer.Pass.Texts
import LlvmTracer.Pass.TextBounds
import LlvmTracer.Lib.CallStack
import LlvmTracer.Pass.Program
import LlvmTracer.Logger.Contents
import LlvmTracer.Pass.TraceFiles
import LlvmTracer.Logger.Progress
import LlvmTracer.Pass.Fields
import LlvmTracer.Toolchain
import LlvmTracer.Pass.BlockLines
import LlvmTracer.Pass.DataFlow
import LlvmTracer.Pass.ControlFlow
import LlvmTracer.Lib.SharedData
import LlvmTracer.Pass.SharedMemory
import LlvmTracer.Logger.ThreadRecords
import LlvmTracer.Pass.ThreadTraces
import LlvmTracer.Pass.Acceptance
