import Propositional.Main
import Propositional.Proofs.Valuation
import Propositional.Proofs.Evaluation
import Propositional.Proofs.Rows
import Propositional.Proofs.Enumeration
import Propositional.Proofs.Subformula
import Propositional.Proofs.Simplify.Meaning
import Propositional.Proofs.Simplify.Shape
import Propositional.Proofs.Simplify.Equivalence
import Propositional.Proofs.Simplify.Commutation
import Propositional.Proofs.Simplify.FixedPoint
import Propositional.Proofs.Simplify.Kept
import Propositional.Proofs.Simplify.Reduction
import Propositional.Proofs.Simplify.Laws
import Propositional.Proofs.Simplify.Congruence
import Propositional.Proofs.Simplify.Relabelling
import Propositional.Proofs.Simplify.Calls
import Propositional.Proofs.NormalForm.Negation
import Propositional.Proofs.NormalForm.DeMorgan
import Propositional.Proofs.NormalForm.Disjunctive
import Propositional.Proofs.NormalForm.Calls
import Propositional.Proofs.NormalForm.Clauses
import Propositional.Proofs.NormalForm.Recognition
import Propositional.Proofs.NormalForm.Rejection
import Propositional.Proofs.NormalForm.Stability
import Propositional.Proofs.NormalForm.Confirmation
import Propositional.Proofs.NormalForm.Renaming
import Propositional.Proofs.Text.Utf8
import Propositional.Proofs.Text.Margins
import Propositional.Proofs.Document.Literal
import Propositional.Proofs.Document.Spelling
import Propositional.Proofs.Document.Scan
import Propositional.Proofs.Document.Tiling
import Propositional.Proofs.Document.Grammar
import Propositional.Proofs.Document.Acceptance
import Propositional.Proofs.Document.Stopping
import Propositional.Proofs.Document.ViablePrefix
import Propositional.Proofs.Document.Quotation
import Propositional.Proofs.Document.RoundTrip
import Propositional.Proofs.Document.Replacement
import Propositional.Proofs.Document.Canonical
import Propositional.Proofs.Document.Brackets
import Propositional.Proofs.Json.Text
import Propositional.Proofs.Json.Symbols
import Propositional.Proofs.Json.Decoders
import Propositional.Proofs.Response
import Propositional.Proofs.Session.Calls
import Propositional.Proofs.Session.Answers
import Propositional.Proofs.Session.Recent
import Propositional.Proofs.Session.Remarks
import Propositional.Proofs.Command.Source
import Propositional.Proofs.Command.Gives
import Propositional.Proofs.Command.Job
import Propositional.Proofs.Command.FileTree
import Propositional.Proofs.Command.Texts
import Propositional.Proofs.Command.Ending
import Propositional.Proofs.Command.Follows
import Propositional.Proofs.Command.Verbosity
import Propositional.Proofs.Document.Positions
import Propositional.Proofs.TruthTable
import Propositional.Proofs.Preorder
import Propositional.Proofs.Diagram.Tree
import Propositional.Proofs.Diagram.Dot
import Propositional.Proofs.Diagram.Identifier
import Propositional.Proofs.Diagram.ReadBack
import Propositional.Proofs.Readability
