import LateBinding.Binary.Format
import LateBinding.Binary.Remainder
import LateBinding.Class.Overload
import LateBinding.Class.Registry
import LateBinding.Decimal.Layout
import LateBinding.Decimal.Shortest
import LateBinding.Dispatch.Error
import LateBinding.Dispatch.Linkage
import LateBinding.Dispatch.Runtime
import LateBinding.Dispatch.Site
import LateBinding.FreshName
import LateBinding.Json.Basic
import LateBinding.Json.Printer
import LateBinding.Json.Reader
import LateBinding.Json.Record
import LateBinding.Program.Construct
import LateBinding.Program.Construction
import LateBinding.Program.DynamicCall
import LateBinding.Program.Forest
import LateBinding.Program.Literal
import LateBinding.Program.Malformation
import LateBinding.Program.NodeId
import LateBinding.Program.Operator
import LateBinding.Program.Outline
import LateBinding.Program.Span
import LateBinding.Program.Traversal
import LateBinding.Program.Tree
import LateBinding.Proofs.Class.Assignability
import LateBinding.Proofs.Class.Hierarchy
import LateBinding.Proofs.Class.Locality
import LateBinding.Proofs.Class.Overload
import LateBinding.Proofs.Class.Registration
import LateBinding.Proofs.Class.RegistrationOrder
import LateBinding.Proofs.Class.Specificity
import LateBinding.Proofs.Dispatch.Failure
import LateBinding.Proofs.Dispatch.Fit
import LateBinding.Proofs.Dispatch.History
import LateBinding.Proofs.Dispatch.Lookups
import LateBinding.Proofs.Dispatch.Step
import LateBinding.Proofs.Dispatch.Transparency
import LateBinding.Proofs.Dispatch.Wiring
import LateBinding.Proofs.FreshName
import LateBinding.Proofs.Json.Numeral
import LateBinding.Proofs.Json.Record
import LateBinding.Proofs.Json.RoundTrip
import LateBinding.Proofs.Json.Text
import LateBinding.Proofs.Keyed
import LateBinding.Proofs.Lexical.Context
import LateBinding.Proofs.Lexical.Enclosing
import LateBinding.Proofs.Lexical.Frames
import LateBinding.Proofs.Lexical.FreeNames
import LateBinding.Proofs.Lexical.Inside
import LateBinding.Proofs.Lexical.Lookup
import LateBinding.Proofs.Lexical.Ownership
import LateBinding.Proofs.Lexical.Position
import LateBinding.Proofs.Lexical.Relabelling
import LateBinding.Proofs.Lexical.Scopes
import LateBinding.Proofs.Lexical.Shape
import LateBinding.Proofs.Lexical.Storage
import LateBinding.Proofs.Occurrence
import LateBinding.Proofs.Place
import LateBinding.Proofs.Program.Descendants
import LateBinding.Proofs.Program.Editing
import LateBinding.Proofs.Program.Growth
import LateBinding.Proofs.Program.Links
import LateBinding.Proofs.Program.Moves
import LateBinding.Proofs.Program.Outline
import LateBinding.Proofs.Program.Paths
import LateBinding.Proofs.Program.Preorder
import LateBinding.Proofs.Program.Siblings
import LateBinding.Proofs.Resolution.Calls
import LateBinding.Proofs.Resolution.Captures
import LateBinding.Proofs.Resolution.Frame
import LateBinding.Proofs.Resolution.Idempotence
import LateBinding.Proofs.Resolution.Independence
import LateBinding.Proofs.Resolution.Induction
import LateBinding.Proofs.Resolution.Layouts
import LateBinding.Proofs.Resolution.Naming
import LateBinding.Proofs.Resolution.Nesting
import LateBinding.Proofs.Resolution.Opening
import LateBinding.Proofs.Resolution.Recorded
import LateBinding.Proofs.Resolution.Reflection
import LateBinding.Proofs.Resolution.Scopes
import LateBinding.Proofs.Resolution.Scoping
import LateBinding.Proofs.Resolution.Slots
import LateBinding.Proofs.Resolution.Step
import LateBinding.Proofs.Resolution.Telling
import LateBinding.Proofs.Resolution.Walk
import LateBinding.Proofs.Scope.Change
import LateBinding.Proofs.Scope.Ordered
import LateBinding.Proofs.Scope.Reach
import LateBinding.Proofs.Scope.Refinement
import LateBinding.Proofs.Scope.Snapshot
import LateBinding.Proofs.Scope.Store
import LateBinding.Proofs.Scope.Table
import LateBinding.Proofs.Scope.Visibility
import LateBinding.Proofs.Value.Comparison
import LateBinding.Proofs.Value.Evaluation
import LateBinding.Proofs.Value.Identity
import LateBinding.Proofs.Value.Text
import LateBinding.Proofs.Value.WholeNumbers
import LateBinding.Proofs.Value.Widening
import LateBinding.Resolution.Error
import LateBinding.Resolution.Outcome
import LateBinding.Resolution.Pass
import LateBinding.Resolution.Progress
import LateBinding.Scope.Binding
import LateBinding.Scope.Store
import LateBinding.Scope.Table
import LateBinding.Text.Extender
import LateBinding.Text.Quoted
import LateBinding.Text.Repeated
import LateBinding.Text.Unprintable
import LateBinding.Value.Basic
import LateBinding.Value.Comparison
import LateBinding.Value.Primitive
import LateBinding.Value.Tag
