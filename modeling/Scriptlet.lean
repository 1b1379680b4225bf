import Scriptlet.Cache
import Scriptlet.Command
import Scriptlet.Command.Inputs
import Scriptlet.Digest.Sha256
import Scriptlet.Evaluation
import Scriptlet.Files.Path
import Scriptlet.Files.Tree
import Scriptlet.Flags
import Scriptlet.Git.Repository
import Scriptlet.Lockfile
import Scriptlet.Log
import Scriptlet.Main
import Scriptlet.Manifest
import Scriptlet.Node
import Scriptlet.Node.Descent
import Scriptlet.Node.Parser
import Scriptlet.Node.Printer
import Scriptlet.Number.Binary
import Scriptlet.Number.Decimal
import Scriptlet.Number.Power
import Scriptlet.Options
import Scriptlet.Project
import Scriptlet.Repl
import Scriptlet.Repl.History
import Scriptlet.Repl.Lines
import Scriptlet.Session
import Scriptlet.Text.Base64
import Scriptlet.Text.Blank
import Scriptlet.Text.Case
import Scriptlet.Text.Hex
import Scriptlet.Text.Printable
import Scriptlet.Text.Quoted
import Scriptlet.Text.Utf8
import Scriptlet.Token
import Scriptlet.Token.Lexer
import Scriptlet.Token.Scanner
import Scriptlet.Value
import Scriptlet.Value.Environment
import Scriptlet.Value.Snapshot
import Scriptlet.Watch
import Scriptlet.World
import Scriptlet.Yaml.Decode
import Scriptlet.Yaml.File
import Scriptlet.Yaml.Node
import Scriptlet.Yaml.Printer
import Scriptlet.Yaml.Scalar
import Scriptlet.Yaml.Stream
import Scriptlet.Yaml.Token
import Scriptlet.Proofs.Layout
import Scriptlet.Proofs.Scanning
import Scriptlet.Proofs.Partition
import Scriptlet.Proofs.Lines
import Scriptlet.Proofs.Completion
import Scriptlet.Proofs.Parser.Shape
import Scriptlet.Proofs.Conservation
import Scriptlet.Proofs.Grouping
import Scriptlet.Proofs.Number.Numeral
import Scriptlet.Proofs.Spelling
import Scriptlet.Proofs.RoundTrip
import Scriptlet.Proofs.Number.Rounding
import Scriptlet.Proofs.Evaluation.Contract
import Scriptlet.Proofs.Evaluation.Soundness
import Scriptlet.Proofs.Evaluation.Changes
import Scriptlet.Proofs.Evaluation.Locality
import Scriptlet.Proofs.Evaluation.Rules
import Scriptlet.Proofs.Evaluation.Operands
import Scriptlet.Proofs.Evaluation.Iteration
import Scriptlet.Proofs.Evaluation.Branching
import Scriptlet.Proofs.Session.Trace
import Scriptlet.Proofs.Session.Chunks
import Scriptlet.Proofs.Spacing
import Scriptlet.Proofs.Session.Policies
import Scriptlet.Proofs.Parser.Depth
import Scriptlet.Proofs.Task
import Scriptlet.Proofs.Session.Scripts
import Scriptlet.Proofs.Command.Scripts
import Scriptlet.Proofs.Text.Trimming
import Scriptlet.Proofs.Files.Writing
import Scriptlet.Proofs.Lockfile
import Scriptlet.Proofs.Cache
import Scriptlet.Proofs.Manifest
import Scriptlet.Proofs.Pinning
import Scriptlet.Proofs.Watch
import Scriptlet.Proofs.Repl.Chunks
import Scriptlet.Proofs.Refusal
import Scriptlet.Proofs.Parser.Framing
import Scriptlet.Proofs.Negation
import Scriptlet.Proofs.Nesting
import Scriptlet.Proofs.Respelling
import Scriptlet.Proofs.Cache.Containment
import Scriptlet.Proofs.Formula
import Scriptlet.Proofs.Ambiguity
import Scriptlet.Proofs.Evaluation.Parts
import Scriptlet.Proofs.Evaluation.Undefined
import Scriptlet.Proofs.Evaluation.Kinds
import Scriptlet.Proofs.Lockfile.Persistence
import Scriptlet.Proofs.Reference
import Scriptlet.Proofs.Validation
import Scriptlet.Proofs.Files.Following
import Scriptlet.Proofs.Files.Ascending
import Scriptlet.Proofs.Manifest.Nearest
import Scriptlet.Proofs.Files.Moving
import Scriptlet.Proofs.Cache.Operations
import Scriptlet.Proofs.Cache.Creation
import Scriptlet.Proofs.Text.Encoding
import Scriptlet.Proofs.Files.Inside
import Scriptlet.Proofs.Cache.Guard
import Scriptlet.Proofs.Stopping
import Scriptlet.Proofs.Parser.Progress
import Scriptlet.Proofs.Parser.Descent
import Scriptlet.Proofs.Fallbacks
import Scriptlet.Proofs.Value.Equality
import Scriptlet.Proofs.Text.Order
import Scriptlet.Proofs.Value.Environment
