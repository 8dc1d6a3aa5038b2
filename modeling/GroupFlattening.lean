import GroupFlattening.Dataset.Write
import GroupFlattening.Flatten.Session
import GroupFlattening.Settings.Json
import GroupFlattening.Proofs.Dataset.Addressing
import GroupFlattening.Proofs.Dataset.Representation
import GroupFlattening.Proofs.Dataset.RoundTrip
import GroupFlattening.Proofs.Dataset.Stepwise
import GroupFlattening.Proofs.FlatName
import GroupFlattening.Proofs.Flatten.Again
import GroupFlattening.Proofs.Flatten.Degraded
import GroupFlattening.Proofs.Flatten.Form
import GroupFlattening.Proofs.Flatten.GroupAttributes
import GroupFlattening.Proofs.Flatten.References
import GroupFlattening.Proofs.Flatten.Refusal
import GroupFlattening.Proofs.Flatten.Fidelity
import GroupFlattening.Proofs.Flatten.Named
import GroupFlattening.Proofs.Flatten.ReadBack
import GroupFlattening.Proofs.Flatten.Readiness
import GroupFlattening.Proofs.Flatten.Restricted
import GroupFlattening.Proofs.Flatten.ScalarCoordinates
import GroupFlattening.Proofs.Flatten.Spelling
import GroupFlattening.Proofs.Flatten.Stop
import GroupFlattening.Proofs.Hierarchy.Agreement
import GroupFlattening.Proofs.Reference.Grammar
import GroupFlattening.Proofs.Reference.RoundTrip
import GroupFlattening.Proofs.Resolution.Order
import GroupFlattening.Proofs.Resolution.Relative
import GroupFlattening.Proofs.Settings.Json
import GroupFlattening.Proofs.Shape.Budget
