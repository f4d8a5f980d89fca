import RegisterScheme.Arity
import RegisterScheme.Atom
import RegisterScheme.Datum
import RegisterScheme.Decimal.Binary
import RegisterScheme.Decimal.Layout
import RegisterScheme.Decimal.Read
import RegisterScheme.Decimal.Shortest
import RegisterScheme.Expr.Basic
import RegisterScheme.Expr.Local
import RegisterScheme.Expr.Procedure
import RegisterScheme.Expr.Quasi
import RegisterScheme.Expr.Resolve
import RegisterScheme.Expr.Variables
import RegisterScheme.Failure.Basic
import RegisterScheme.Failure.Malformed
import RegisterScheme.Host.Sample
import RegisterScheme.Host.Signature
import RegisterScheme.Instruction.Basic
import RegisterScheme.Location
import RegisterScheme.Machine.Arguments
import RegisterScheme.Machine.Run
import RegisterScheme.Machine.Store
import RegisterScheme.Native.Basic
import RegisterScheme.Native.Call
import RegisterScheme.Primitive
import RegisterScheme.Program
import RegisterScheme.Proofs.Correctness.Arguments
import RegisterScheme.Proofs.Correctness.Arithmetic
import RegisterScheme.Proofs.Correctness.Binding
import RegisterScheme.Proofs.Correctness.Caching
import RegisterScheme.Proofs.Correctness.CallLimit
import RegisterScheme.Proofs.Correctness.Calls
import RegisterScheme.Proofs.Correctness.Canonical
import RegisterScheme.Proofs.Correctness.Continuation
import RegisterScheme.Proofs.Correctness.Encoding
import RegisterScheme.Proofs.Correctness.Equality
import RegisterScheme.Proofs.Correctness.Execution
import RegisterScheme.Proofs.Correctness.Expansion
import RegisterScheme.Proofs.Correctness.Guards
import RegisterScheme.Proofs.Correctness.Literals
import RegisterScheme.Proofs.Correctness.Locations
import RegisterScheme.Proofs.Correctness.Operators
import RegisterScheme.Proofs.Correctness.Parsing
import RegisterScheme.Proofs.Correctness.Positions
import RegisterScheme.Proofs.Correctness.Redefinition
import RegisterScheme.Proofs.Correctness.Registers
import RegisterScheme.Proofs.Correctness.RoundTrip
import RegisterScheme.Proofs.Correctness.Safety
import RegisterScheme.Proofs.Correctness.Scopes
import RegisterScheme.Proofs.Correctness.Termination
import RegisterScheme.Proofs.Correctness.Tokens
import RegisterScheme.Proofs.Correctness.Trace
import RegisterScheme.Proofs.Correctness.Units
import RegisterScheme.Proofs.Evaluation.Quasi
import RegisterScheme.Proofs.Expr.Addressing
import RegisterScheme.Proofs.Expr.Captures
import RegisterScheme.Proofs.Expr.Changes
import RegisterScheme.Proofs.Expr.Clashes
import RegisterScheme.Proofs.Expr.LexicalPrograms
import RegisterScheme.Proofs.Generation.Parameters
import RegisterScheme.Proofs.Machine.Binding
import RegisterScheme.Proofs.Machine.Dealing
import RegisterScheme.Proofs.Machine.Defaults
import RegisterScheme.Proofs.Machine.Frames
import RegisterScheme.Proofs.Machine.Growth
import RegisterScheme.Scope.Basic
import RegisterScheme.Scope.Chain
import RegisterScheme.Session
import RegisterScheme.Sexpr.Basic
import RegisterScheme.Sexpr.Reader
import RegisterScheme.Template.Basic
import RegisterScheme.Template.Builder
import RegisterScheme.Template.Generator
import RegisterScheme.Template.Listing
import RegisterScheme.Text.Blank
import RegisterScheme.Text.LineIndex
import RegisterScheme.Text.Printable
import RegisterScheme.Text.Quoted
import RegisterScheme.Token.Basic
import RegisterScheme.Token.Lexer
import RegisterScheme.Value.Arithmetic
import RegisterScheme.Value.Basic
import RegisterScheme.Value.Conversion
import RegisterScheme.Variable
