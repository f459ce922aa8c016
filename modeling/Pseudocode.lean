import Pseudocode.Command.Debugger
import Pseudocode.Command.Feed
import Pseudocode.Command.Flags
import Pseudocode.Command.History
import Pseudocode.Command.Job
import Pseudocode.Command.Log
import Pseudocode.Command.Plan
import Pseudocode.Config.Basic
import Pseudocode.Config.Reading
import Pseudocode.Document.Conversion
import Pseudocode.Document.Decoding
import Pseudocode.Document.Draft
import Pseudocode.Document.Error
import Pseudocode.Document.Mismatch
import Pseudocode.Failure
import Pseudocode.Host.Action
import Pseudocode.Host.Builtins
import Pseudocode.Host.Random
import Pseudocode.Host.Registry
import Pseudocode.Main
import Pseudocode.Number.Basic
import Pseudocode.Number.Integer
import Pseudocode.Number.Reading
import Pseudocode.Number.Shortest
import Pseudocode.Number.Writing
import Pseudocode.Proofs.Frames
import Pseudocode.Proofs.Duplicates
import Pseudocode.Run.Console
import Pseudocode.Run.Machine
import Pseudocode.Run.Session
import Pseudocode.Store.Basic
import Pseudocode.Store.Bindings
import Pseudocode.Store.Handle
import Pseudocode.Text.Base64
import Pseudocode.Text.Blank
import Pseudocode.Text.ByteString
import Pseudocode.Text.Closest
import Pseudocode.Text.Cluster
import Pseudocode.Text.ClusterClass
import Pseudocode.Text.Columns
import Pseudocode.Text.Folding
import Pseudocode.Text.Lines
import Pseudocode.Text.Lowercase
import Pseudocode.Text.Printable
import Pseudocode.Text.Quoted
import Pseudocode.Text.Style
import Pseudocode.Text.Utf8
import Pseudocode.Toml.Datetime
import Pseudocode.Toml.Grammar
import Pseudocode.Toml.Table
import Pseudocode.Toml.Value
import Pseudocode.Tree.Kind
import Pseudocode.Tree.Node
import Pseudocode.Tree.Span
import Pseudocode.Value.Basic
import Pseudocode.Value.Clone
import Pseudocode.Value.Heap
import Pseudocode.Value.Operators
import Pseudocode.Value.Render
import Pseudocode.Yaml.Node
import Pseudocode.Yaml.Reading
import Pseudocode.Yaml.Scalar
import Pseudocode.Yaml.Scanner
import Pseudocode.Yaml.Timestamp
import Pseudocode.Yaml.Token
import Pseudocode.Yaml.View
import Pseudocode.Proofs.Tasks
import Pseudocode.Proofs.Moves
import Pseudocode.Proofs.Balance
import Pseudocode.Proofs.Controls
import Pseudocode.Proofs.Stopping
import Pseudocode.Proofs.Aloof
import Pseudocode.Proofs.Stepping
import Pseudocode.Proofs.Location
import Pseudocode.Proofs.Scopes
import Pseudocode.Proofs.Limits
import Pseudocode.Proofs.Budget
import Pseudocode.Proofs.Custody
import Pseudocode.Proofs.LifeCycle
import Pseudocode.Proofs.Suspension
import Pseudocode.Proofs.Halting
import Pseudocode.Proofs.Isolation
import Pseudocode.Proofs.Bounds
import Pseudocode.Proofs.Tokens
import Pseudocode.Proofs.Complete
import Pseudocode.Proofs.Intact
import Pseudocode.Proofs.Sequences
import Pseudocode.Proofs.Changes
import Pseudocode.Proofs.Rounds
import Pseudocode.Proofs.Snapshots
import Pseudocode.Proofs.Drafting
import Pseudocode.Proofs.Returns
import Pseudocode.Proofs.Unrolling
import Pseudocode.Proofs.Identity
import Pseudocode.Proofs.Lines
import Pseudocode.Proofs.Settings
import Pseudocode.Proofs.Sharing
import Pseudocode.Proofs.Vocabulary
import Pseudocode.Proofs.Positions
import Pseudocode.Proofs.Ranges
import Pseudocode.Proofs.Inspection
