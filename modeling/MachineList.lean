import MachineList.Action.Basic
import MachineList.Action.Call
import MachineList.Action.Report
import MachineList.Action.Title
import MachineList.Action.Wire
import MachineList.Board.Basic
import MachineList.Board.Marks
import MachineList.Command.Arguments
import MachineList.Command.Help
import MachineList.Command.Run
import MachineList.ControlPlane.Basic
import MachineList.ControlPlane.Conformance
import MachineList.ControlPlane.Prepared
import MachineList.ControlPlane.Simulator
import MachineList.Digest.Sha256
import MachineList.Disk.Basic
import MachineList.Disk.FileSystem
import MachineList.Disk.Path
import MachineList.Dispatch
import MachineList.Json.Basic
import MachineList.Json.Canonical
import MachineList.Json.Reader
import MachineList.Machine.Basic
import MachineList.Machine.Identity
import MachineList.Machine.Payload
import MachineList.Machine.Permission
import MachineList.Machine.Ref
import MachineList.Machine.Wire
import MachineList.Main
import MachineList.Node
import MachineList.Number.Binary64
import MachineList.Number.Shortest
import MachineList.Number.Text
import MachineList.RefSet
import MachineList.Roster
import MachineList.Scenario.Basic
import MachineList.Scenario.File
import MachineList.Scenario.Form
import MachineList.Scenario.Replay
import MachineList.Scenario.Verdict
import MachineList.Settings.Basic
import MachineList.Settings.File
import MachineList.Settings.Form
import MachineList.Settings.Text
import MachineList.Store
import MachineList.Text.Blank
import MachineList.Text.Printable
import MachineList.Text.Quoted
import MachineList.Toml.Document
import MachineList.Toml.Literal
import MachineList.Toml.String
import MachineList.Toml.Style
import MachineList.Toml.Tree
import MachineList.View
import MachineList.Yaml.Cell
import MachineList.Yaml.Document
import MachineList.Yaml.Scalar
import MachineList.Yaml.Text
import MachineList.Proofs.Board.Entry
import MachineList.Proofs.Board.Exactness
import MachineList.Proofs.Board.Interleaving
import MachineList.Proofs.ControlPlane.Operation
import MachineList.Proofs.View.Run
import MachineList.Proofs.View.Mirror
import MachineList.Proofs.View.Convergence
import MachineList.Proofs.ControlPlane.Batch
import MachineList.Proofs.View.BulkAction
import MachineList.Proofs.Board.Redelivery
import MachineList.Proofs.ControlPlane.Calls
import MachineList.Proofs.Board.OutsideWrites
import MachineList.Proofs.Board.Removal
import MachineList.Proofs.Scenario.Triggers
import MachineList.Proofs.ControlPlane.Subscribers
import MachineList.Proofs.ControlPlane.FeedLog
import MachineList.Proofs.ControlPlane.Attempts
import MachineList.Proofs.View.Reach
import MachineList.Proofs.View.Buttons
import MachineList.Proofs.View.Permissions
import MachineList.Proofs.Machine.Keys
import MachineList.Proofs.Machine.Stability
import MachineList.Proofs.ControlPlane.Reports
import MachineList.Proofs.Board.Effects
import MachineList.Proofs.Json.Reading
import MachineList.Proofs.Json.NormalForm
import MachineList.Proofs.Machine.ContentKeys
import MachineList.Proofs.Board.History
import MachineList.Proofs.Board.Arrival
import MachineList.Proofs.Board.Picks
import MachineList.Proofs.Machine.Decoding
import MachineList.Proofs.ControlPlane.Promises
import MachineList.Proofs.Scenario.Faults
import MachineList.Proofs.Json.Rereading
import MachineList.Proofs.Json.Faithful
import MachineList.Proofs.Action.WireForms
import MachineList.Proofs.Board.Seeding
import MachineList.Proofs.Scenario.Judgement
import MachineList.Proofs.Disk.Places
import MachineList.Proofs.Settings.Files
import MachineList.Proofs.Command.Init
import MachineList.Proofs.Toml.Documents
import MachineList.Proofs.Settings.RoundTrip
import MachineList.Proofs.Toml.Literals
import MachineList.Proofs.Toml.Appending
import MachineList.Proofs.Toml.Values
import MachineList.Proofs.Trace.Since
import MachineList.Proofs.Store.LastWrite
import MachineList.Proofs.Board.MarkHistory
