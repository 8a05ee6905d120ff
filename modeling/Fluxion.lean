import Fluxion.Main
import Fluxion.Proofs.Binary64.Order
import Fluxion.Proofs.Checked.Safety
import Fluxion.Proofs.CommandLine.Script
import Fluxion.Proofs.Expr.Depth
import Fluxion.Proofs.Expr.Dual
import Fluxion.Proofs.Expr.Outline
import Fluxion.Proofs.Literal.Layout
import Fluxion.Proofs.Literal.Recognition
import Fluxion.Proofs.Parse.Fragment
import Fluxion.Proofs.Parse.Log
import Fluxion.Proofs.Parse.Obtained
import Fluxion.Proofs.Parse.Rereading
import Fluxion.Proofs.Parse.Unpaired
import Fluxion.Proofs.Scan.Agreement
import Fluxion.Proofs.Session.Counts
import Fluxion.Proofs.Session.Derivatives
import Fluxion.Proofs.Session.Faults
import Fluxion.Proofs.Session.InPlace
import Fluxion.Proofs.Session.Words
import Fluxion.Proofs.Text.Faithful
import Fluxion.Proofs.Text.WholeNumber
