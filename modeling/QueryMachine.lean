import QueryMachine.Access.Capability
import QueryMachine.Access.Deferred
import QueryMachine.Access.Index
import QueryMachine.Access.Property
import QueryMachine.Build.Access
import QueryMachine.Build.Arithmetic
import QueryMachine.Build.Catch
import QueryMachine.Build.Collection
import QueryMachine.Build.Comparison
import QueryMachine.Build.Logic
import QueryMachine.Build.Loop
import QueryMachine.Build.Named
import QueryMachine.Build.Operands
import QueryMachine.Build.Record
import QueryMachine.Build.Scope
import QueryMachine.Build.Switch
import QueryMachine.Code.Coercion
import QueryMachine.Code.Conversion
import QueryMachine.Code.Emitter
import QueryMachine.Code.Fragment
import QueryMachine.Code.Listing
import QueryMachine.Code.Mnemonic
import QueryMachine.Code.Op
import QueryMachine.Code.Verify
import QueryMachine.Config
import QueryMachine.Decimal.Floating
import QueryMachine.Decimal.Remainder
import QueryMachine.Decimal.Shortest
import QueryMachine.Decimal.Style
import QueryMachine.Error
import QueryMachine.Expr.Basic
import QueryMachine.Expr.Callee
import QueryMachine.Expr.Frame
import QueryMachine.Expr.Place
import QueryMachine.Fault
import QueryMachine.Kind
import QueryMachine.Machine.Core
import QueryMachine.Machine.Dispatch
import QueryMachine.Machine.Exec
import QueryMachine.Machine.Native
import QueryMachine.Machine.Number
import QueryMachine.Machine.World
import QueryMachine.Program.Basic
import QueryMachine.Program.Lowering
import QueryMachine.Program.Operator
import QueryMachine.Promise
import QueryMachine.Record
import QueryMachine.Rep
import QueryMachine.Resolve
import QueryMachine.Session
import QueryMachine.Text.Hex
import QueryMachine.Text.Hidden
import QueryMachine.Text.Layout
import QueryMachine.Text.Quoted
import QueryMachine.Text.Units
import QueryMachine.Text.Uppercase
import QueryMachine.Timestamp
import QueryMachine.Ty.Basic
import QueryMachine.Ty.HostType
import QueryMachine.Ty.Name
import QueryMachine.Ty.Registry
import QueryMachine.Ty.Unify
import QueryMachine.Ty.ValueType
import QueryMachine.Unit.Constants
import QueryMachine.Unit.Draft
import QueryMachine.Unit.Load
import QueryMachine.Unit.Order
import QueryMachine.Unit.Struct
import QueryMachine.Value.Basic
import QueryMachine.Value.Equality
import QueryMachine.Value.Heap
import QueryMachine.Value.Literal
import QueryMachine.Value.Text
import QueryMachine.Proofs.Effects
import QueryMachine.Proofs.Promise
import QueryMachine.Proofs.Verifier.Assignment
import QueryMachine.Proofs.Verifier.Decision
import QueryMachine.Proofs.Machine.StackEffect
import QueryMachine.Proofs.Machine.Trace
import QueryMachine.Proofs.Verifier.Soundness
import QueryMachine.Proofs.Code.Flow
import QueryMachine.Proofs.Code.Walk
import QueryMachine.Proofs.Code.Emission
import QueryMachine.Proofs.Ty.Projection
import QueryMachine.Proofs.Ty.Registry
import QueryMachine.Proofs.Ty.Regular
import QueryMachine.Proofs.Ty.Head
import QueryMachine.Proofs.Ty.Join
import QueryMachine.Proofs.Code.Casting
import QueryMachine.Proofs.Build.Basic
import QueryMachine.Proofs.Build.Logic
import QueryMachine.Proofs.Build.Operands
import QueryMachine.Proofs.Build.Access
import QueryMachine.Proofs.Expr.Frame
import QueryMachine.Proofs.Build.Record
import QueryMachine.Proofs.Build.Loop
import QueryMachine.Proofs.Unit.Method
import QueryMachine.Proofs.Unit.Struct
import QueryMachine.Proofs.Session
import QueryMachine.Proofs.Resolution
import QueryMachine.Proofs.Unknown
import QueryMachine.Proofs.Program.Compositional
import QueryMachine.Proofs.Program.Builders
import QueryMachine.Proofs.Program.Blocks
import QueryMachine.Proofs.Program.Tree
import QueryMachine.Proofs.Unit.Order
import QueryMachine.Proofs.Unit.Load
import QueryMachine.Proofs.Program.Entry
import QueryMachine.Proofs.Program.Compile
import QueryMachine.Proofs.Program.Verified
import QueryMachine.Proofs.Program.Dangling
import QueryMachine.Proofs.Program.Enclosed
import QueryMachine.Proofs.Program.Invocation
import QueryMachine.Proofs.Machine.Course
import QueryMachine.Proofs.Scalar.Number
import QueryMachine.Proofs.Scalar.Code
import QueryMachine.Proofs.Scalar.Operands
import QueryMachine.Proofs.Scalar.Formula
import QueryMachine.Proofs.Scalar.Cast
import QueryMachine.Proofs.Scalar.Switch
import QueryMachine.Proofs.Scalar.Lower
import QueryMachine.Proofs.Scalar.Slots
import QueryMachine.Proofs.Scalar.Correct
import QueryMachine.Proofs.Value.Nesting
import QueryMachine.Proofs.Value.Equality
import QueryMachine.Proofs.Text.Case
import QueryMachine.Proofs.Machine.Memory
import QueryMachine.Proofs.Machine.Dispatch
import QueryMachine.Proofs.Code.Relocation
import QueryMachine.Proofs.Build.Confinement
import QueryMachine.Proofs.Program.Confinement
import QueryMachine.Proofs.Machine.Mirror
import QueryMachine.Proofs.Machine.Capture
import QueryMachine.Proofs.Unit.Rendering
import QueryMachine.Proofs.Program.Isolation
import QueryMachine.Proofs.Unit.Twin
import QueryMachine.Proofs.Program.Statement
import QueryMachine.Proofs.Machine.Scene
import QueryMachine.Proofs.Value.Instance
import QueryMachine.Proofs.Code.Switch
import QueryMachine.Proofs.Code.Writing
import QueryMachine.Proofs.Code.Growth
import QueryMachine.Proofs.Unit.Accessor
import QueryMachine.Proofs.Unit.Switching
import QueryMachine.Proofs.Unit.Getter
import QueryMachine.Proofs.Unit.Reader
import QueryMachine.Proofs.Unit.Property
import QueryMachine.Proofs.Unit.Setter
import QueryMachine.Proofs.Unit.Constructor
import QueryMachine.Proofs.Unit.Accesses
import QueryMachine.Proofs.Machine.Stretch
import QueryMachine.Proofs.Machine.Protection
import QueryMachine.Proofs.Build.Contained
import QueryMachine.Proofs.Build.Attempt
import QueryMachine.Proofs.Ty.Memo
import QueryMachine.Proofs.Value.Record
import QueryMachine.Proofs.Code.Lease
import QueryMachine.Proofs.Unit.Generation
import QueryMachine.Proofs.Program.Retention
import QueryMachine.Proofs.Program.Drawing
import QueryMachine.Proofs.Program.Literal
import QueryMachine.Proofs.Scalar.Branch
import QueryMachine.Proofs.Program.Indexing
import QueryMachine.Proofs.Program.Checked
