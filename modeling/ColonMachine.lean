import ColonMachine.Code.Listing
import ColonMachine.Code.Opcode
import ColonMachine.Command.Files
import ColonMachine.Command.Flags
import ColonMachine.Command.Inputs
import ColonMachine.Command.Run
import ColonMachine.Config.Basic
import ColonMachine.Config.Duration
import ColonMachine.Dictionary
import ColonMachine.Failure
import ColonMachine.Guard
import ColonMachine.Input.Source
import ColonMachine.Input.Stream
import ColonMachine.Log.LineWriter
import ColonMachine.Log.Record
import ColonMachine.Log.Template
import ColonMachine.Machine.Basic
import ColonMachine.Machine.Compiler
import ColonMachine.Machine.Console
import ColonMachine.Machine.Dialogue
import ColonMachine.Machine.Dump
import ColonMachine.Machine.Interpreter
import ColonMachine.Machine.Progress
import ColonMachine.Machine.Settings
import ColonMachine.Machine.Stack
import ColonMachine.Machine.Step
import ColonMachine.Machine.Words
import ColonMachine.Main
import ColonMachine.Output.Device
import ColonMachine.Output.Outlet
import ColonMachine.Output.Route
import ColonMachine.Proofs.Abandonment
import ColonMachine.Proofs.Abreast
import ColonMachine.Proofs.Alike
import ColonMachine.Proofs.Arrival
import ColonMachine.Proofs.Attempts
import ColonMachine.Proofs.Boundaries
import ColonMachine.Proofs.Callers
import ColonMachine.Proofs.Changes
import ColonMachine.Proofs.Chunking
import ColonMachine.Proofs.Closing
import ColonMachine.Proofs.Compilation
import ColonMachine.Proofs.Composition
import ColonMachine.Proofs.Containment
import ColonMachine.Proofs.Course
import ColonMachine.Proofs.Definitions
import ColonMachine.Proofs.Delivery
import ColonMachine.Proofs.Depth
import ColonMachine.Proofs.Dictation
import ColonMachine.Proofs.Effects
import ColonMachine.Proofs.Events
import ColonMachine.Proofs.Faults
import ColonMachine.Proofs.Forwarding
import ColonMachine.Proofs.Grouping
import ColonMachine.Proofs.Growth
import ColonMachine.Proofs.Honest
import ColonMachine.Proofs.Indexing
import ColonMachine.Proofs.Instalments
import ColonMachine.Proofs.Invariant
import ColonMachine.Proofs.Layout
import ColonMachine.Proofs.Lines
import ColonMachine.Proofs.Onward
import ColonMachine.Proofs.Positions
import ColonMachine.Proofs.Prelude
import ColonMachine.Proofs.Presentation
import ColonMachine.Proofs.Prompting
import ColonMachine.Proofs.Readback
import ColonMachine.Proofs.Refinement
import ColonMachine.Proofs.Reflow
import ColonMachine.Proofs.Restraint
import ColonMachine.Proofs.Resumption
import ColonMachine.Proofs.Robustness
import ColonMachine.Proofs.RoundTrip
import ColonMachine.Proofs.Session
import ColonMachine.Proofs.Sinks
import ColonMachine.Proofs.Spelling
import ColonMachine.Proofs.Stepping
import ColonMachine.Proofs.Teaching
import ColonMachine.Proofs.Tees
import ColonMachine.Proofs.Termination
import ColonMachine.Proofs.Twins
import ColonMachine.Proofs.View
import ColonMachine.Proofs.Vocabulary
import ColonMachine.Text.Basic
import ColonMachine.Text.Decimal
import ColonMachine.Text.Printable
import ColonMachine.Text.Quoted
import ColonMachine.Text.Rune
import ColonMachine.Text.Separator
import ColonMachine.Toml.Document
import ColonMachine.Toml.Grammar
import ColonMachine.Toml.Moments
import ColonMachine.Toml.Numbers
import ColonMachine.Toml.Strings
import ColonMachine.Wrappers.Generate
import ColonMachine.Wrappers.Params
