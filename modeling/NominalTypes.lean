import NominalTypes.Main
import NominalTypes.Proofs.Inference.Completeness
import NominalTypes.Proofs.Inference.RoundTrip
import NominalTypes.Proofs.Inference.Composition
import NominalTypes.Proofs.Hierarchy.Ancestors
import NominalTypes.Proofs.Hierarchy.Composition
import NominalTypes.Proofs.Inference.AncestorViews
import NominalTypes.Proofs.Renaming.Ty
import NominalTypes.Proofs.Renaming.Catalog
import NominalTypes.Proofs.Renaming.Inference
import NominalTypes.Proofs.Renaming.Bare
import NominalTypes.Proofs.Pool.Genuine
import NominalTypes.Proofs.Pool.Faithful
import NominalTypes.Proofs.Pool.Requests
import NominalTypes.Proofs.Pool.Answers
import NominalTypes.Proofs.Pool.Growth
import NominalTypes.Proofs.Pool.Runs
import NominalTypes.Proofs.Session.Recomputation
import NominalTypes.Proofs.Pool.Transparency
import NominalTypes.Proofs.Inference.Alignment
import NominalTypes.Proofs.Pool.WellFormed
import NominalTypes.Proofs.Registry.Links
import NominalTypes.Proofs.Registry.Outcomes
import NominalTypes.Proofs.Hierarchy.Locality
import NominalTypes.Proofs.Inference.Locality
import NominalTypes.Proofs.Registry.Locality
import NominalTypes.Proofs.Pool.Locality
import NominalTypes.Proofs.Loading.Declaring
import NominalTypes.Proofs.Loading.Writing
import NominalTypes.Proofs.Loading.Linking
import NominalTypes.Proofs.Loading.Acceptance
import NominalTypes.Proofs.Loading.Reachability
import NominalTypes.Proofs.Session.Relocation
import NominalTypes.Proofs.Loading.Permutation
import NominalTypes.Proofs.Expr.Refusals
import NominalTypes.Proofs.Registry.Belonging
import NominalTypes.Proofs.Session.Results
import NominalTypes.Proofs.Session.RoundTrip
import NominalTypes.Proofs.Inference.Comparison
import NominalTypes.Proofs.Inference.Locating
import NominalTypes.Proofs.Inference.FirstOffence
import NominalTypes.Proofs.Expr.Renderings
import NominalTypes.Proofs.Loading.Rendering
import NominalTypes.Proofs.Pool.Renderings
import NominalTypes.Proofs.Inference.NormalForm
import NominalTypes.Proofs.Pool.Accounting
import NominalTypes.Proofs.Diagnostic.Placeholders
import NominalTypes.Proofs.Registry.Kinds
import NominalTypes.Proofs.Registry.Numbering
import NominalTypes.Proofs.Registry.Ledger
