import MessageFormat.Command
import MessageFormat.Document
import MessageFormat.Main
import MessageFormat.Pattern.Reading
import MessageFormat.Proofs.Pattern.Progress
import MessageFormat.Proofs.Pattern.RoundTrip
import MessageFormat.Proofs.Script.Containment
import MessageFormat.Proofs.Script.LiteralValue
import MessageFormat.Proofs.Script.PoundScope
import MessageFormat.Proofs.Script.Preservation
import MessageFormat.Proofs.TypeExpr.Adequacy
import MessageFormat.Proofs.Wire.RoundTrip
import MessageFormat.Proofs.Wire.Schema
import MessageFormat.Proofs.Wire.Stability
import MessageFormat.Proofs.Pattern.Strictness
import MessageFormat.Proofs.Pattern.Foresight
import MessageFormat.Proofs.TypeExpr.Names
import MessageFormat.Proofs.TypeExpr.Soundness
import MessageFormat.Proofs.Text.Utf8
import MessageFormat.Proofs.Diagnostic
import MessageFormat.Proofs.Frontends
import MessageFormat.Proofs.Pipeline
import MessageFormat.Proofs.Quotation
import MessageFormat.Proofs.Merging
import MessageFormat.Proofs.Pattern.Extension
import MessageFormat.Proofs.Script.Reordering
import MessageFormat.Proofs.Pattern.Concatenation
import MessageFormat.Proofs.Script.Locale
import MessageFormat.Proofs.Json.Layout
import MessageFormat.Proofs.Wire.Rearrangement
import MessageFormat.Proofs.ExactKeys
