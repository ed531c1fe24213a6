import LinearEquations.CommandLine
import LinearEquations.Complex.Power
import LinearEquations.Equation.Text
import LinearEquations.LabelledMatrix.Workspace
import LinearEquations.Main
import LinearEquations.Scalar.Basic
import LinearEquations.Proofs.EliminationRun
import LinearEquations.Proofs.GaussianRational
import LinearEquations.Proofs.EchelonForm
import LinearEquations.Proofs.RowSpace
import LinearEquations.Proofs.Reduction
import LinearEquations.Proofs.ReducedForm
import LinearEquations.Proofs.RowEquivalence
import LinearEquations.Proofs.Construction
import LinearEquations.Proofs.SolutionSet
import LinearEquations.Proofs.BackSubstitution
import LinearEquations.Proofs.SolutionText
import LinearEquations.Proofs.Cells
import LinearEquations.Proofs.Shape
import LinearEquations.Proofs.WorkspaceRun
import LinearEquations.Proofs.Determinant
import LinearEquations.Proofs.Inverse
import LinearEquations.Proofs.InverseByElimination
import LinearEquations.Proofs.Grammar
import LinearEquations.Proofs.Reading
import LinearEquations.Proofs.Place
import LinearEquations.Proofs.InPlaceReading
import LinearEquations.Proofs.ErrorPlace
import LinearEquations.Proofs.Lookahead
import LinearEquations.Proofs.NumberText
import LinearEquations.Proofs.ViablePrefix
import LinearEquations.Proofs.DoubleValue
import LinearEquations.Proofs.FiniteReading
import LinearEquations.Proofs.SolveOutcome
import LinearEquations.Proofs.WholeText
import LinearEquations.Proofs.EquationText
import LinearEquations.Proofs.DecimalRange
import LinearEquations.Proofs.ScalarText
import LinearEquations.Proofs.Rereading
import LinearEquations.Proofs.Views
import LinearEquations.Proofs.FlatMatrix
import LinearEquations.Proofs.FlatLayout
import LinearEquations.Proofs.FlatArithmetic
import LinearEquations.Proofs.FlatViews
import LinearEquations.Proofs.FlatRowOperation
import LinearEquations.Proofs.FlatElimination
import LinearEquations.Proofs.FlatRun
import LinearEquations.Proofs.FlatSolve
import LinearEquations.Proofs.Session
import LinearEquations.Proofs.DeterminantQueries
import LinearEquations.Proofs.TokenGrammar
import LinearEquations.Proofs.TokenReading
import LinearEquations.Proofs.SignificantDigits
import LinearEquations.Proofs.DigitRun
import LinearEquations.Proofs.PrecisionText
import LinearEquations.Proofs.NegligibleCells
import LinearEquations.Proofs.SolutionLines
import LinearEquations.Proofs.AddedMultiple
import LinearEquations.Proofs.AugmentedMatrix
import LinearEquations.Proofs.ExactUnit
import LinearEquations.Proofs.ReducedDoubles
import LinearEquations.Proofs.RowOperationDeterminant
import LinearEquations.Proofs.DoubleRounding
import LinearEquations.Proofs.Mentions
import LinearEquations.Proofs.Reciprocal
import LinearEquations.Proofs.CanonicalText
import LinearEquations.Proofs.ShortestDecimal
import LinearEquations.Proofs.ReadBack
import LinearEquations.Proofs.FewPlaces
import LinearEquations.Proofs.RowsOfOperands
import LinearEquations.Proofs.ProductLaws
import LinearEquations.Proofs.DoubleArithmetic
import LinearEquations.Proofs.TransposedProduct
import LinearEquations.Proofs.ScaledPivot
import LinearEquations.Proofs.Staircase
import LinearEquations.Proofs.DenseArray
import LinearEquations.Proofs.MatrixText
import LinearEquations.Proofs.KeptLabels
import LinearEquations.Proofs.Overflow
import LinearEquations.Proofs.ColumnLabels
import LinearEquations.Proofs.BlockLaws
