import ExprLang.Main
import ExprLang.Proofs.Token.Lookahead
import ExprLang.Proofs.Expr.Unambiguity
import ExprLang.Proofs.Expr.Viability
import ExprLang.Proofs.Expr.Reading
import ExprLang.Proofs.Expr.OpenConstructs
import ExprLang.Proofs.Expr.Nesting
import ExprLang.Proofs.Expr.Acceptance
import ExprLang.Proofs.Expr.ErrorReport
import ExprLang.Proofs.Evaluation.Refinement
import ExprLang.Proofs.Expr.Assembly
import ExprLang.Proofs.Expr.Filling
import ExprLang.Proofs.Expr.Regular
import ExprLang.Proofs.Expr.RoundTrip
import ExprLang.Proofs.Token.DigitRun
import ExprLang.Proofs.Culprit
import ExprLang.Proofs.Expr.Indifference
import ExprLang.Proofs.Token.Layout
import ExprLang.Proofs.Session.Ends
import ExprLang.Proofs.Session.Status
import ExprLang.Proofs.Session.Dump
import ExprLang.Proofs.Expr.Correspondence
import ExprLang.Proofs.LayoutIndependence
import ExprLang.Proofs.Expr.Exports
import ExprLang.Proofs.OneLine
import ExprLang.Proofs.Session.Agreement
import ExprLang.Proofs.Evaluation.Registers
import ExprLang.Proofs.Token.Cut
import ExprLang.Proofs.Expr.Climbing
import ExprLang.Proofs.Expr.SourceOrder
import ExprLang.Proofs.Expr.Stopping
import ExprLang.Proofs.Evaluation.SurfaceValue
import ExprLang.Proofs.Evaluation.Wrapping
import ExprLang.Proofs.Expr.Outlasting
import ExprLang.Proofs.Expr.Succession
import ExprLang.Proofs.Expr.SurfaceText
import ExprLang.Proofs.Expr.JsonTree
import ExprLang.Proofs.Expr.Indentation
import ExprLang.Proofs.Listing
import ExprLang.Proofs.Evaluation.Interchange
import ExprLang.Proofs.Expr.Address
import ExprLang.Proofs.Evaluation.Errands
import ExprLang.Proofs.Evaluation.Visits
import ExprLang.Proofs.Token.Refusal
import ExprLang.Proofs.Token.Bearings
import ExprLang.Proofs.Token.Looking
