import StateFlow.Choice.Evaluate
import StateFlow.CommandLine.Report
import StateFlow.Execution.Single
import StateFlow.Execution.Summary
import StateFlow.Function.Script
import StateFlow.Machine.Text
import StateFlow.Main
import StateFlow.Proofs.Fault.Payload
import StateFlow.Proofs.Machine.Levels
import StateFlow.Proofs.Execution.Frames
import StateFlow.Proofs.Execution.Raising
import StateFlow.Proofs.Execution.Walk
import StateFlow.Proofs.Simulator.Session
import StateFlow.Proofs.Simulator.Aborting
import StateFlow.Proofs.Simulator.Faults
import StateFlow.Proofs.Machine.Names
import StateFlow.Proofs.Manifest.Loading
import StateFlow.Proofs.Execution.Calls
import StateFlow.Proofs.Manifest.Bindings
import StateFlow.Proofs.Execution.MapOrder
import StateFlow.Proofs.Execution.Front
import StateFlow.Proofs.Execution.Trace
import StateFlow.Proofs.Execution.Cancellation
import StateFlow.Proofs.Simulator.Cancellation
import StateFlow.Proofs.Simulator.Quiet
import StateFlow.Proofs.Simulator.Trace
import StateFlow.Proofs.Token.History
import StateFlow.Proofs.Execution.FreshNames
import StateFlow.Proofs.Execution.Ownership
import StateFlow.Proofs.Simulator.Reports
import StateFlow.Proofs.Simulator.Callback
import StateFlow.Proofs.Simulator.Closing
import StateFlow.Proofs.Choice.RoundTrip
import StateFlow.Proofs.Record
import StateFlow.Proofs.Machine.RoundTrip
import StateFlow.Proofs.Manifest.Contents
import StateFlow.Proofs.Execution.Likeness
import StateFlow.Proofs.Execution.Reporting
import StateFlow.Proofs.Execution.Alone
import StateFlow.Proofs.Execution.Ending
import StateFlow.Proofs.Simulator.Alone
import StateFlow.Proofs.Execution.Course
import StateFlow.Proofs.Execution.Foresight
import StateFlow.Proofs.Execution.Foretelling
import StateFlow.Proofs.Execution.OnCourse
import StateFlow.Proofs.Machine.WellFormed
import StateFlow.Proofs.Machine.Acyclic
import StateFlow.Proofs.Execution.Invocations
import StateFlow.Proofs.Simulator.Invocations
import StateFlow.Proofs.Execution.Tasks
import StateFlow.Proofs.Execution.Independence
import StateFlow.Proofs.Simulator.Independence
import StateFlow.Proofs.Execution.Leeway
import StateFlow.Proofs.Execution.Ceasing
import StateFlow.Proofs.Execution.Pace
import StateFlow.Proofs.Simulator.History
import StateFlow.Proofs.Simulator.Unending
import StateFlow.Proofs.Simulator.Deadline
import StateFlow.Proofs.Machine.References
import StateFlow.Proofs.DataFlow.ResultPath
import StateFlow.Proofs.DataFlow.Template
import StateFlow.Proofs.DataFlow.Filling
import StateFlow.Proofs.DataFlow.CallbackPayload
import StateFlow.Proofs.DataFlow.Composition
import StateFlow.Proofs.Execution.Disclosure
import StateFlow.Proofs.Path.Grammar
import StateFlow.Proofs.Choice.Guards
import StateFlow.Proofs.Choice.NormalForm
import StateFlow.Proofs.Choice.Wildcard
import StateFlow.Proofs.Choice.Evaluation
import StateFlow.Proofs.Choice.Grammar
import StateFlow.Proofs.Number.Nearest
import StateFlow.Proofs.Number.Order
import StateFlow.Proofs.Choice.Comparison
import StateFlow.Proofs.Machine.FreeDocuments
import StateFlow.Proofs.Manifest.Replacement
import StateFlow.Proofs.Manifest.ReplacedStates
import StateFlow.Proofs.Manifest.Literals
import StateFlow.Proofs.Manifest.Documents
import StateFlow.Proofs.Manifest.WrittenTasks
import StateFlow.Proofs.Manifest.ReferencedFunctions
import StateFlow.Proofs.Json.Reader
import StateFlow.Proofs.Text.Lines
import StateFlow.Proofs.Json.Printer
import StateFlow.Proofs.Json.RoundTrip
import StateFlow.Proofs.Handler.Output
import StateFlow.Proofs.Handler.Indented
import StateFlow.Proofs.Execution.Provenance
import StateFlow.Proofs.Simulator.Provenance
import StateFlow.Proofs.Execution.Waiting
import StateFlow.Proofs.Execution.Once
import StateFlow.Proofs.Simulator.Once
