import Debugger.Breakpoint.Basic
import Debugger.Breakpoint.Operation
import Debugger.Breakpoint.Store
import Debugger.CallTree.Basic
import Debugger.CallTree.Document
import Debugger.CallTree.Hook
import Debugger.CallTree.Recording
import Debugger.CallTree.Walk
import Debugger.CommandLine
import Debugger.Config.Basic
import Debugger.Config.Document
import Debugger.Decimal.Binary64
import Debugger.Decimal.Shortest
import Debugger.Diagnostic
import Debugger.Expression
import Debugger.Failure
import Debugger.Files
import Debugger.KeyOrder
import Debugger.Launch
import Debugger.Main
import Debugger.OrderedMap
import Debugger.Pause.Engine
import Debugger.Pause.Run
import Debugger.Pause.Scenario
import Debugger.Pause.Slot
import Debugger.Scope
import Debugger.Script
import Debugger.Session.Basic
import Debugger.Session.Listener
import Debugger.Session.Scenario
import Debugger.Snapshot
import Debugger.Source
import Debugger.Stepping
import Debugger.Stepping.Operation
import Debugger.Text.Blank
import Debugger.Text.Lines
import Debugger.Text.Numeral
import Debugger.Toml.Draft
import Debugger.Toml.Reader
import Debugger.Toml.Scalar
import Debugger.Toml.Shape
import Debugger.Toml.Text
import Debugger.Toml.Value
import Debugger.Transcript
import Debugger.Value
import Debugger.Variable
import Debugger.Proofs.CallTree.Turns
import Debugger.Proofs.Pause.Entry
import Debugger.Proofs.Pause.Release
import Debugger.Proofs.Session.Pausing
import Debugger.Proofs.Session.Evaluation
import Debugger.Proofs.Session.Player
import Debugger.Proofs.Session.Touring
import Debugger.Proofs.Session.Commands
import Debugger.Proofs.Breakpoint.Visits
import Debugger.Proofs.Transcript.Pages
import Debugger.Proofs.Transcript.Driving
import Debugger.Proofs.CallTree.Calls
import Debugger.Proofs.CallTree.Places
import Debugger.Proofs.CallTree.Stacks
import Debugger.Proofs.Session.Steps
import Debugger.Proofs.Pause.History
import Debugger.Proofs.Pause.Segments
import Debugger.Proofs.Pause.Reentrancy
import Debugger.Proofs.Pause.Discipline
import Debugger.Proofs.CallTree.Refusal
import Debugger.Proofs.Session.Delivery
import Debugger.Proofs.Transcript.Sinks
import Debugger.Proofs.Transcript.Cutting
import Debugger.Proofs.CallTree.Orders
import Debugger.Proofs.Session.Chronicle
import Debugger.Proofs.Session.Conduct
import Debugger.Proofs.Session.Rounds
import Debugger.Proofs.Session.Party
import Debugger.Proofs.Session.Stretches
import Debugger.Proofs.Session.Outcomes
import Debugger.Proofs.Session.Answered
import Debugger.Proofs.Session.Invariants
import Debugger.Proofs.Session.Abreast
import Debugger.Proofs.Session.Outlook
import Debugger.Proofs.Session.Onlookers
import Debugger.Proofs.Session.Reachable
import Debugger.Proofs.Session.Interruption
import Debugger.Proofs.Breakpoint.Identifiers
import Debugger.Proofs.Breakpoint.Registry
import Debugger.Proofs.Breakpoint.Histories
import Debugger.Proofs.Breakpoint.Asking
import Debugger.Proofs.Launch.Breakpoints
import Debugger.Proofs.Toml.Keys
import Debugger.Proofs.Toml.Fields
import Debugger.Proofs.CallTree.Loading
import Debugger.Proofs.Config.Budget
import Debugger.Proofs.Session.Previews
import Debugger.Proofs.Transcript.Inspecting
import Debugger.Proofs.Transcript.Rows
import Debugger.Proofs.Transcript.Framing
import Debugger.Proofs.CallTree.Ancestries
import Debugger.Proofs.CallTree.Views
import Debugger.Proofs.Session.Views
import Debugger.Proofs.Breakpoint.Orders
import Debugger.Proofs.Breakpoint.HitCounts
import Debugger.Proofs.Scope.Shadowing
import Debugger.Proofs.Session.Gating
import Debugger.Proofs.Script.Reading
import Debugger.Proofs.Variable.Truncation
import Debugger.Proofs.Script.Echoes
import Debugger.Proofs.Toml.Formats
import Debugger.Proofs.CallTree.Spans
import Debugger.Proofs.CallTree.Documents
import Debugger.Proofs.Launch.LineSpecs
import Debugger.Proofs.Snapshot.Listings
import Debugger.Proofs.Session.Mirror
import Debugger.Proofs.Breakpoint.Conditions
import Debugger.Proofs.Session.Conditions
import Debugger.Proofs.Variable.Budgets
import Debugger.Proofs.Transcript.Blocks
import Debugger.Proofs.Breakpoint.Numbering
import Debugger.Proofs.Breakpoint.Additions
import Debugger.Proofs.Transcript.Recorded
import Debugger.Proofs.Launch.Stages
