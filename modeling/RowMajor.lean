import RowMajor.Stack
import RowMajor.Linear.Product
import RowMajor.Pointwise.Algebra
import RowMajor.Tensor.Text
import RowMajor.Algebra.Integer
import RowMajor.Algebra.Residue
import RowMajor.Algebra.Real
import RowMajor.Algebra.Complex
import RowMajor.Scalar.Signed
import RowMajor.Tensor.Place
import RowMajor.Structure.Rule
import RowMajor.Proofs.Elimination.Order
import RowMajor.Proofs.Scalar.Exact
import RowMajor.Proofs.Elimination.Factors
import RowMajor.Proofs.Elimination.Solve
import RowMajor.Proofs.Linear.Factor
import RowMajor.Proofs.Singular.Component
import RowMajor.Proofs.Singular.Peeled
import RowMajor.Proofs.Singular.Power
import RowMajor.Proofs.Singular.Stage
import RowMajor.Proofs.Singular.Mirror
import RowMajor.Proofs.Singular.Decomposition
import RowMajor.Proofs.Linear.Singular
import RowMajor.Proofs.Scalar.Zero
import RowMajor.Proofs.Singular.Usable
import RowMajor.Proofs.Singular.Unseen
import RowMajor.Proofs.Linear.Unseen
import RowMajor.Proofs.Linear.Determinant
import RowMajor.Proofs.Layout.Position
import RowMajor.Proofs.Layout.Walk
import RowMajor.Proofs.Tensor.Access
import RowMajor.Proofs.Tensor.Sequence
import RowMajor.Proofs.Tensor.Tiling
import RowMajor.Proofs.Stack.Outcome
import RowMajor.Proofs.Stack.Pieces
import RowMajor.Proofs.Stack.Operations
import RowMajor.Proofs.Singular.Overwrite
import RowMajor.Proofs.Stack.Singular
import RowMajor.Proofs.Stack.Separate
import RowMajor.Proofs.Stack.Independent
import RowMajor.Proofs.Elimination.Exchanges
import RowMajor.Proofs.Linear.RowOrder
import RowMajor.Proofs.Cholesky.Rows
import RowMajor.Proofs.Cholesky.Definite
import RowMajor.Proofs.Linear.Cholesky
import RowMajor.Proofs.Orthogonal.Projection
import RowMajor.Proofs.Linear.Orthogonal
import RowMajor.Proofs.Matrix.Overwrite
import RowMajor.Proofs.Orthogonal.Overwrite
import RowMajor.Proofs.Linear.Refusal
import RowMajor.Proofs.Singular.Budget
import RowMajor.Proofs.Linear.Shapes
import RowMajor.Proofs.Pointwise.Shapes
import RowMajor.Proofs.Linear.Budget
import RowMajor.Proofs.Linear.Effect
import RowMajor.Proofs.Tensor.History
import RowMajor.Proofs.Tensor.Range
import RowMajor.Proofs.Structure.Elements
import RowMajor.Proofs.Structure.Content
import RowMajor.Proofs.Pointwise.Gather
import RowMajor.Proofs.Pointwise.Assign
import RowMajor.Proofs.Pointwise.Laws
import RowMajor.Proofs.Singular.Squares
import RowMajor.Proofs.Linear.Squares
import RowMajor.Proofs.Scalar.Trace
import RowMajor.Proofs.Scalar.Sign
import RowMajor.Proofs.Elimination.ZeroPivot
import RowMajor.Proofs.Elimination.Reorder
import RowMajor.Proofs.Linear.ZeroPivot
import RowMajor.Proofs.Linear.Reorder
import RowMajor.Proofs.Singular.Gain
import RowMajor.Proofs.Singular.Found
import RowMajor.Proofs.Singular.Dominant
import RowMajor.Proofs.Linear.FirstValue
import RowMajor.Proofs.Linear.Descent
import RowMajor.Proofs.Scalar.Invalid
import RowMajor.Proofs.Cholesky.Invalid
import RowMajor.Proofs.Linear.Invalid
import RowMajor.Proofs.Cholesky.Prefix
import RowMajor.Proofs.Orthogonal.Prefix
import RowMajor.Proofs.Linear.Prefix
import RowMajor.Proofs.Algebra.Integer
import RowMajor.Proofs.Pointwise.Integer
import RowMajor.Proofs.Pointwise.Agreement
import RowMajor.Proofs.Layout.Accepted
import RowMajor.Proofs.Layout.Exact
import RowMajor.Proofs.Stack.SingularShapes
import RowMajor.Proofs.Stack.Pivots
import RowMajor.Proofs.Matrix.Transposed
import RowMajor.Proofs.Linear.Transposed
import RowMajor.Proofs.Algebra.Named
import RowMajor.Proofs.Pointwise.Named
import RowMajor.Proofs.Tensor.Calls
import RowMajor.Proofs.Structure.Passes
