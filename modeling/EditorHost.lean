import EditorHost.Api
import EditorHost.Api.Query
import EditorHost.CommandLine.Help
import EditorHost.CommandLine.Invocation
import EditorHost.CommandLine.Run
import EditorHost.Commands
import EditorHost.Configuration
import EditorHost.Diagnostic
import EditorHost.DiagnosticCollection
import EditorHost.Disk
import EditorHost.Disk.Action
import EditorHost.Disk.Changes
import EditorHost.Disk.Tour
import EditorHost.Document
import EditorHost.Event
import EditorHost.Extension.Background
import EditorHost.Extension.Context
import EditorHost.Extension.Discovery
import EditorHost.Extension.Host
import EditorHost.Extension.Install
import EditorHost.Extension.Lifecycle
import EditorHost.Extension.Manifest
import EditorHost.Extension.Memento
import EditorHost.Fault
import EditorHost.Feature.Answer
import EditorHost.Feature.Position
import EditorHost.Flow
import EditorHost.Json.Commented
import EditorHost.Json.Double
import EditorHost.Json.Numeral
import EditorHost.Json.Printer
import EditorHost.Json.Route
import EditorHost.Json.Shape
import EditorHost.Json.Slots
import EditorHost.Json.Tree
import EditorHost.Json.Value
import EditorHost.Listeners
import EditorHost.Main
import EditorHost.Outcome
import EditorHost.OutputChannel
import EditorHost.Path
import EditorHost.Proofs.Alone
import EditorHost.Proofs.CommandLine.Effects
import EditorHost.Proofs.CommandLine.Histories
import EditorHost.Proofs.CommandLine.Sessions
import EditorHost.Proofs.Commands
import EditorHost.Proofs.Diary
import EditorHost.Proofs.Disk.Confinement
import EditorHost.Proofs.Disk.Copying
import EditorHost.Proofs.Disk.Faces
import EditorHost.Proofs.Disk.Following
import EditorHost.Proofs.Disk.Leading
import EditorHost.Proofs.Disk.Making
import EditorHost.Proofs.Disk.Remaking
import EditorHost.Proofs.Disk.Removing
import EditorHost.Proofs.Disk.Replacing
import EditorHost.Proofs.Disk.Saving
import EditorHost.Proofs.Ending
import EditorHost.Proofs.Extension.Activations
import EditorHost.Proofs.Extension.Agreement
import EditorHost.Proofs.Extension.Alternation
import EditorHost.Proofs.Extension.Cleanup
import EditorHost.Proofs.Extension.Conduct
import EditorHost.Proofs.Extension.Containment
import EditorHost.Proofs.Extension.Contributions
import EditorHost.Proofs.Extension.Disabling
import EditorHost.Proofs.Extension.Discovering
import EditorHost.Proofs.Extension.Fading
import EditorHost.Proofs.Extension.FanOut
import EditorHost.Proofs.Extension.HostCalls
import EditorHost.Proofs.Extension.Housekeeping
import EditorHost.Proofs.Extension.Installing
import EditorHost.Proofs.Extension.LastInLine
import EditorHost.Proofs.Extension.Line
import EditorHost.Proofs.Extension.Loading
import EditorHost.Proofs.Extension.Mementos
import EditorHost.Proofs.Extension.Offers
import EditorHost.Proofs.Extension.Outermost
import EditorHost.Proofs.Extension.Packages
import EditorHost.Proofs.Extension.Persisting
import EditorHost.Proofs.Extension.Pruning
import EditorHost.Proofs.Extension.Reactivation
import EditorHost.Proofs.Extension.Replacement
import EditorHost.Proofs.Extension.Restart
import EditorHost.Proofs.Extension.Shadowing
import EditorHost.Proofs.Extension.Stories
import EditorHost.Proofs.Extension.Succeeding
import EditorHost.Proofs.Extension.Walking
import EditorHost.Proofs.Extension.Wants
import EditorHost.Proofs.Formats
import EditorHost.Proofs.Guarantee
import EditorHost.Proofs.Interference
import EditorHost.Proofs.Interleaving
import EditorHost.Proofs.Json.Expansion
import EditorHost.Proofs.Json.Lines
import EditorHost.Proofs.Json.Merging
import EditorHost.Proofs.Json.Nodes
import EditorHost.Proofs.Json.NormalForm
import EditorHost.Proofs.Json.Numerals
import EditorHost.Proofs.Json.Records
import EditorHost.Proofs.Json.Rereading
import EditorHost.Proofs.Json.Routes
import EditorHost.Proofs.OneTurn
import EditorHost.Proofs.Path
import EditorHost.Proofs.Payload.Edits
import EditorHost.Proofs.Payload.Numbers
import EditorHost.Proofs.Payload.Reading
import EditorHost.Proofs.Protocol
import EditorHost.Proofs.Providers.Asking
import EditorHost.Proofs.Providers.Keys
import EditorHost.Proofs.Providers.Lookup
import EditorHost.Proofs.Providers.Written
import EditorHost.Proofs.Purpose
import EditorHost.Proofs.Rpc.Answering
import EditorHost.Proofs.Rpc.Bookkeeping
import EditorHost.Proofs.Rpc.Chunks
import EditorHost.Proofs.Rpc.ClientCalls
import EditorHost.Proofs.Rpc.Closing
import EditorHost.Proofs.Rpc.Conversation
import EditorHost.Proofs.Rpc.Correlation
import EditorHost.Proofs.Rpc.Crossing
import EditorHost.Proofs.Rpc.DocumentTable
import EditorHost.Proofs.Rpc.FailedStart
import EditorHost.Proofs.Rpc.Handshake
import EditorHost.Proofs.Rpc.HeadlessBody
import EditorHost.Proofs.Rpc.Messages
import EditorHost.Proofs.Rpc.Mirror
import EditorHost.Proofs.Rpc.NoisyStream
import EditorHost.Proofs.Rpc.Notes
import EditorHost.Proofs.Rpc.Questions
import EditorHost.Proofs.Rpc.Requests
import EditorHost.Proofs.Rpc.Returning
import EditorHost.Proofs.Rpc.Standing
import EditorHost.Proofs.Rpc.Succession
import EditorHost.Proofs.Settings.Defaults
import EditorHost.Proofs.Settings.Keys
import EditorHost.Proofs.Single
import EditorHost.Proofs.StatusBar
import EditorHost.Proofs.Table
import EditorHost.Proofs.Text.Lines
import EditorHost.Proofs.Text.Octets
import EditorHost.Proofs.Uninterrupted
import EditorHost.Proofs.Uri
import EditorHost.Proofs.Workbench.Agreement
import EditorHost.Proofs.Workbench.Bystanders
import EditorHost.Proofs.Workbench.DiagnosticsMirror
import EditorHost.Proofs.Workbench.DocumentCalls
import EditorHost.Proofs.Workbench.Lifetimes
import EditorHost.Proofs.Workbench.SettingChanges
import EditorHost.Proofs.Workbench.StatusMirror
import EditorHost.Proofs.Workbench.Store
import EditorHost.Proofs.Workbench.Teardown
import EditorHost.Registry
import EditorHost.Rounds
import EditorHost.Rpc.Client
import EditorHost.Rpc.Frame
import EditorHost.Rpc.Message
import EditorHost.Rpc.Payload
import EditorHost.Rpc.Server
import EditorHost.Scenario.Arguments
import EditorHost.Scenario.Cast
import EditorHost.Scenario.Interview
import EditorHost.Scenario.Listing
import EditorHost.Scenario.Peer
import EditorHost.Scenario.Play
import EditorHost.Scenario.Session
import EditorHost.Scenario.Stage
import EditorHost.Scenario.Step
import EditorHost.Scenario.Transcript
import EditorHost.Schedule
import EditorHost.Selector
import EditorHost.Settings.Layout
import EditorHost.Settings.Servers
import EditorHost.Settings.Store
import EditorHost.StatusBar
import EditorHost.Table
import EditorHost.Text.Blank
import EditorHost.Text.Glob
import EditorHost.Text.Lines
import EditorHost.Text.Numeral
import EditorHost.Text.Percent
import EditorHost.Text.Printable
import EditorHost.Text.Quoted
import EditorHost.Text.Split
import EditorHost.Text.Utf8
import EditorHost.Uri
import EditorHost.Workbench
import EditorHost.World
