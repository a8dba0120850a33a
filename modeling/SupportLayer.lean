import SupportLayer.Discovery
import SupportLayer.FileTree
import SupportLayer.Guard
import SupportLayer.Header
import SupportLayer.Print.Template
import SupportLayer.Sequence.Registers
import SupportLayer.Session
import SupportLayer.Proofs.Print.Tokens
import SupportLayer.Proofs.Print.Parts
import SupportLayer.Proofs.Print.Conventions
import SupportLayer.Proofs.Scope.Agenda
import SupportLayer.Proofs.Scope.Blocks
import SupportLayer.Proofs.Scope.Ledger
import SupportLayer.Proofs.Print.Lines
import SupportLayer.Proofs.FileTree.Locations
import SupportLayer.Proofs.Shelf.Refinement
import SupportLayer.Proofs.Discovery.Nearest
import SupportLayer.Proofs.Settings.Grammar
import SupportLayer.Proofs.Discovery.Deciding
import SupportLayer.Proofs.Shelf.Conservation
import SupportLayer.Proofs.Toml.Moved
import SupportLayer.Proofs.Toml.Longer.Strings
import SupportLayer.Proofs.Toml.Longer.Documents
import SupportLayer.Proofs.Toml.Longer.Tables
import SupportLayer.Proofs.Settings.Foreign
import SupportLayer.Proofs.Settings.Written
import SupportLayer.Proofs.Print.Segments
import SupportLayer.Proofs.Print.Characters
import SupportLayer.Proofs.Scope.Balance
import SupportLayer.Proofs.Guard.Firing
import SupportLayer.Proofs.Scope.Snapshot
import SupportLayer.Proofs.Scope.Records
import SupportLayer.Proofs.Print.Concatenation
import SupportLayer.Proofs.Print.Accounting
import SupportLayer.Proofs.Path.Walk
import SupportLayer.Proofs.Print.Escaping
import SupportLayer.Proofs.Discovery.Search
import SupportLayer.Proofs.Discovery.Spelling
import SupportLayer.Proofs.Discovery.Relative
import SupportLayer.Proofs.Settings.Order
import SupportLayer.Proofs.Sequence.Streaming
import SupportLayer.Proofs.Print.Status
import SupportLayer.Proofs.StringHandle.Sizes
import SupportLayer.Proofs.Sequence.Display
import SupportLayer.Proofs.Sequence.Unambiguous
import SupportLayer.Proofs.Sequence.Stack
import SupportLayer.Proofs.Sequence.Independence
import SupportLayer.Proofs.Sequence.Access
