import LinProg.Equation.Text
import LinProg.Main
import LinProg.Proofs.ArtificialBasis
import LinProg.Proofs.CompileErrors
import LinProg.Proofs.Consistency
import LinProg.Proofs.Directions
import LinProg.Proofs.Edge
import LinProg.Proofs.EnteredCosts
import LinProg.Proofs.ErrorPositions
import LinProg.Proofs.FirstFault
import LinProg.Proofs.Infeasibility
import LinProg.Proofs.InlineConstraints
import LinProg.Proofs.IterationLimit
import LinProg.Proofs.LetterCase
import LinProg.Proofs.Lookup
import LinProg.Proofs.NegatedConstraint
import LinProg.Proofs.Overflow
import LinProg.Proofs.PrintedNumbers
import LinProg.Proofs.Progress
import LinProg.Proofs.RegistryHistory
import LinProg.Proofs.Renumbering
import LinProg.Proofs.RoundTrip
import LinProg.Proofs.TableauText
import LinProg.Proofs.TermSums
import LinProg.Proofs.TextbookRule
import LinProg.Proofs.Tiling
import LinProg.Proofs.Tolerance
import LinProg.Proofs.Unmentioned
