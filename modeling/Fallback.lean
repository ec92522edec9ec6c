import Fallback.Script.Step
import Fallback.Proofs.Change
import Fallback.Proofs.Tree
import Fallback.Proofs.Rule
import Fallback.Proofs.Position
import Fallback.Proofs.Failure
import Fallback.Proofs.Provenance
import Fallback.Proofs.Escape
import Fallback.Proofs.Guard
import Fallback.Proofs.Construction
import Fallback.Proofs.Malformed
import Fallback.Proofs.Agreement
import Fallback.Proofs.Course
import Fallback.Proofs.Depth
import Fallback.Proofs.Abort
import Fallback.Proofs.Residue
import Fallback.Proofs.Bracketing
import Fallback.Proofs.Phrase
import Fallback.Proofs.Reading
import Fallback.Proofs.Lowering
import Fallback.Proofs.Translation
import Fallback.Proofs.Origin
import Fallback.Proofs.Location
import Fallback.Proofs.Likeness
import Fallback.Proofs.Answer
import Fallback.Proofs.Lockstep
import Fallback.Proofs.Noninterference
import Fallback.Proofs.Observer
import Fallback.Proofs.Itinerary
import Fallback.Proofs.Slot
import Fallback.Proofs.Occurrence
import Fallback.Proofs.Chronicle
import Fallback.Proofs.Correspondence
import Fallback.Proofs.Counterpart
import Fallback.Proofs.Block
import Fallback.Proofs.Sharing
import Fallback.Proofs.Comparison
import Fallback.Proofs.Number
import Fallback.Proofs.Shape
import Fallback.Proofs.Alike
import Fallback.Proofs.Equivalence
import Fallback.Proofs.Keeping
import Fallback.Proofs.Echo
import Fallback.Proofs.Reevaluation
import Fallback.Proofs.Linkage
import Fallback.Proofs.Snapshot
import Fallback.Proofs.Spine
import Fallback.Proofs.Logbook
import Fallback.Proofs.Description
import Fallback.Proofs.Respelling
import Fallback.Proofs.Completeness
import Fallback.Proofs.Inertness
import Fallback.Proofs.Verdict
import Fallback.Proofs.Admission
import Fallback.Proofs.Terminal
import Fallback.Proofs.Variables
import Fallback.Proofs.Trail
