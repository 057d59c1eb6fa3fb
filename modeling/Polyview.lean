import Polyview.Compilation
import Polyview.Proofs.Member.Compound
import Polyview.Proofs.Member.Writes
import Polyview.Proofs.Member.Capture
import Polyview.Proofs.Component.RoundTrip
import Polyview.Proofs.Import.Repetition
import Polyview.Proofs.Backend.DeclarationOrder
import Polyview.Proofs.Backend.ComputedValues
import Polyview.Proofs.Member.MutationValue
import Polyview.Proofs.Unit.Extraction
import Polyview.Proofs.Css.Comments
import Polyview.Proofs.Unit.Render
import Polyview.Proofs.Backend.StyleLiterals
import Polyview.Proofs.Import.Reading
import Polyview.Proofs.Css.ByteRules
import Polyview.Proofs.Source.Replacement
import Polyview.Proofs.Member.ReadOrder
import Polyview.Proofs.Source.Location
