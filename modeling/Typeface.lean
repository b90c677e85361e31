import Typeface.Engine.Operation
import Typeface.Proofs.Foremost
import Typeface.Proofs.Listing
import Typeface.Proofs.Drawing
import Typeface.Proofs.Derivation
import Typeface.Proofs.Undisturbed
import Typeface.Proofs.WellFormed
import Typeface.Proofs.Delivery
import Typeface.Proofs.Run
import Typeface.Proofs.Audience
import Typeface.Proofs.Movement
import Typeface.Proofs.Failure
import Typeface.Proofs.Grouping
import Typeface.Proofs.Discovery
import Typeface.Proofs.Retention
import Typeface.Proofs.RoundTrip
import Typeface.Proofs.Leniency
import Typeface.Proofs.Completion
import Typeface.Proofs.Regrouping
import Typeface.Proofs.Attendance
import Typeface.Proofs.Replay
import Typeface.Proofs.Steadiness
import Typeface.Proofs.Testimony
import Typeface.Proofs.Shielding
import Typeface.Proofs.Consultation
import Typeface.Proofs.Display
import Typeface.Proofs.Regular
import Typeface.Proofs.Synthesis
import Typeface.Proofs.Partition
import Typeface.Proofs.Canonical
import Typeface.Proofs.Recognition
import Typeface.Proofs.Precedence
import Typeface.Proofs.Reading
import Typeface.Proofs.Projection
import Typeface.Proofs.Naming
import Typeface.Proofs.Numerals
import Typeface.Proofs.Governance
import Typeface.Proofs.Parity
