import PubSweep.Apply
import PubSweep.Codec.Finding
import PubSweep.Codec.Report
import PubSweep.Collection
import PubSweep.Command.Arguments
import PubSweep.Command.Execute
import PubSweep.Command.Flag
import PubSweep.Command.Help
import PubSweep.Command.Listing
import PubSweep.Config
import PubSweep.Diff.Hunk
import PubSweep.Diff.Piece
import PubSweep.Diff.Shortest
import PubSweep.Diff.Slide
import PubSweep.Digest.Block
import PubSweep.Digest.Sha1
import PubSweep.Digest.Sha256
import PubSweep.Document
import PubSweep.Edit
import PubSweep.Files.Discovery
import PubSweep.Files.Tree
import PubSweep.Files.Write
import PubSweep.Finding
import PubSweep.Glob
import PubSweep.Grammar.Cores
import PubSweep.Grammar.FirstSets
import PubSweep.Grammar.Items
import PubSweep.Grammar.Merge
import PubSweep.Grammar.Pattern
import PubSweep.Grammar.Productions
import PubSweep.Grammar.Rule
import PubSweep.Grammar.Rust
import PubSweep.Grammar.States
import PubSweep.Grammar.Table
import PubSweep.Grammar.TokenAutomaton
import PubSweep.Grammar.TokenConflicts
import PubSweep.Identity
import PubSweep.Json.Decode
import PubSweep.Json.Print
import PubSweep.Json.Value
import PubSweep.Main
import PubSweep.Output
import PubSweep.Parsing.Lexer
import PubSweep.Parsing.Recovery
import PubSweep.Parsing.Reduction
import PubSweep.Parsing.Run
import PubSweep.Parsing.Scanner
import PubSweep.Parsing.Source
import PubSweep.Parsing.Stack
import PubSweep.Parsing.Subtree
import PubSweep.Pass
import PubSweep.Patch
import PubSweep.Path
import PubSweep.PathMap
import PubSweep.Report
import PubSweep.Report.Markdown
import PubSweep.Rule
import PubSweep.Run
import PubSweep.Syntax.Cursor
import PubSweep.Syntax.Node
import PubSweep.Syntax.Rust
import PubSweep.Syntax.Tree
import PubSweep.Text.Blank
import PubSweep.Text.Bytes
import PubSweep.Text.Position
import PubSweep.Text.Span
import PubSweep.Time
import PubSweep.Toml.Parse
import PubSweep.Toml.Scalar
import PubSweep.Toml.Value
import PubSweep.Unicode.Identifier
import PubSweep.Uuid
import PubSweep.Visibility.Check
import PubSweep.Visibility.Item
import PubSweep.Visibility.Proposal
import PubSweep.Proofs.Syntax.Places
import PubSweep.Proofs.Syntax.Shape
import PubSweep.Proofs.Text.Cut
import PubSweep.Proofs.Text.Insertion
import PubSweep.Proofs.Visibility.Offenders
import PubSweep.Proofs.Batch
import PubSweep.Proofs.Visibility.Publish
import PubSweep.Proofs.Visibility.Scan
import PubSweep.Proofs.Apply
import PubSweep.Proofs.Visibility.Correction
import PubSweep.Proofs.Pass.Fidelity
import PubSweep.Proofs.Pass.Workers
import PubSweep.Proofs.Pass.Cancellation
import PubSweep.Proofs.Pass.Idempotence
import PubSweep.Proofs.Visibility.Sequential
import PubSweep.Proofs.Apply.Atomicity
import PubSweep.Proofs.Files.Names
import PubSweep.Proofs.Path.Order
import PubSweep.Proofs.Path.Parent
import PubSweep.Proofs.Files.Tree
import PubSweep.Proofs.Files.Visited
import PubSweep.Proofs.Files.Discovery
import PubSweep.Proofs.Files.Walk
import PubSweep.Proofs.Files.Writing
import PubSweep.Proofs.Files.Reload
import PubSweep.Proofs.Run
import PubSweep.Proofs.Parsing.Subtree
import PubSweep.Proofs.Parsing.Stack
import PubSweep.Proofs.Parsing.Walk
import PubSweep.Proofs.Parsing.Tokens
import PubSweep.Proofs.Parsing.Reduction
import PubSweep.Proofs.Parsing.Recovery
import PubSweep.Proofs.Parsing.Run
import PubSweep.Proofs.Parsing.Nodes
import PubSweep.Proofs.Path.Components
import PubSweep.Proofs.Diff.Script
import PubSweep.Proofs.Diff.Slide
import PubSweep.Proofs.Diff.Hunks
import PubSweep.Proofs.Diff.TextLines
import PubSweep.Proofs.Diff.Unified
import PubSweep.Proofs.Patch
import PubSweep.Proofs.Collection
import PubSweep.Proofs.Pass.Outcome
import PubSweep.Proofs.Pass.Agreement
import PubSweep.Proofs.Pass.Isolation
import PubSweep.Proofs.Files.Identities
import PubSweep.Proofs.Pass.Prediction
import PubSweep.Proofs.Pass.Balance
import PubSweep.Proofs.Run.Order
import PubSweep.Proofs.Files.Growth
import PubSweep.Proofs.Files.Retry
import PubSweep.Proofs.Files.Revisit
import PubSweep.Proofs.Command.Recheck
import PubSweep.Proofs.Visibility.Resolution
import PubSweep.Proofs.Apply.Substitution
import PubSweep.Proofs.Command.Interruption
import PubSweep.Proofs.Time.Calendar
import PubSweep.Proofs.Time.Text
import PubSweep.Proofs.Uuid
import PubSweep.Proofs.Json.Decode
import PubSweep.Proofs.Codec
import PubSweep.Proofs.Apply.Order
import PubSweep.Proofs.Apply.Sequence
import PubSweep.Proofs.Syntax.Replacement
import PubSweep.Proofs.Text.Position
import PubSweep.Proofs.Visibility.Evaluation
import PubSweep.Proofs.Visibility.FileParser
import PubSweep.Proofs.Syntax.Traversal
import PubSweep.Proofs.Config
import PubSweep.Proofs.Output
import PubSweep.Proofs.Files.Exclusion
import PubSweep.Proofs.Syntax.Position
import PubSweep.Proofs.Apply.Neighbours
import PubSweep.Proofs.Batch.Grouping
