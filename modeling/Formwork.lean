import Formwork.Main
import Formwork.Plan.Encoder
import Formwork.Action.Printer
import Formwork.Proofs.Session
import Formwork.Proofs.Tree.Coherence
import Formwork.Proofs.Tree.ErrorRouting
import Formwork.Proofs.Tree.PipelineOrder
import Formwork.Proofs.Tree.Restoring
import Formwork.Proofs.Tree.Spellings
import Formwork.Proofs.Tree.Keeping
import Formwork.Proofs.Tree.Inducing
import Formwork.Proofs.Tree.Bounds
import Formwork.Proofs.Tree.InPlace
import Formwork.Proofs.Tree.Transparency
import Formwork.Proofs.Tree.Steps
import Formwork.Proofs.Tree.Withholding
import Formwork.Proofs.Tree.PartialSubmissions
import Formwork.Proofs.Tree.ReportRouting
import Formwork.Proofs.Tree.Retrying
import Formwork.Proofs.Tree.Isolation
import Formwork.Proofs.Tree.Newcomers
import Formwork.Proofs.Tree.DialogControl
import Formwork.Proofs.Tree.Refusals
import Formwork.Proofs.Tree.Undoing
import Formwork.Proofs.Tree.ErrorDelivery
import Formwork.Proofs.Tree.Excerpts
import Formwork.Proofs.Tree.Resetting
import Formwork.Proofs.Tree.Resolving
import Formwork.Proofs.Tree.Fixtures
import Formwork.Proofs.Flattening
import Formwork.Proofs.Expression.RoundTrip
import Formwork.Proofs.Action.RoundTrip
import Formwork.Proofs.Expression.Grammar
import Formwork.Proofs.Tree.Extras
import Formwork.Proofs.Expression.Absence
import Formwork.Proofs.Tree.Naming
import Formwork.Proofs.Tree.Markup
import Formwork.Proofs.Redaction.Hiding
import Formwork.Proofs.Text.TopLevel
import Formwork.Proofs.Tree.DottedPaths
