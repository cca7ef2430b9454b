import Bitonic.Main
import Bitonic.Output.Writer
import Bitonic.Proofs.Machine.Sorting
import Bitonic.Proofs.Network.ClosedBodies
import Bitonic.Proofs.Plan.Unambiguous
import Bitonic.Proofs.Machine.KnownRoutines
import Bitonic.Proofs.Machine.Shaping
import Bitonic.Proofs.Plan.LengthDispatch
import Bitonic.Proofs.Machine.LayerValues
import Bitonic.Proofs.Machine.Rearrangement
import Bitonic.Proofs.Run.FinishingOrder
import Bitonic.Proofs.Machine.VerificationOutcomes
import Bitonic.Proofs.Output.Isolation
import Bitonic.Proofs.Plan.TypeDispatch
import Bitonic.Proofs.Machine.Inlining
import Bitonic.Proofs.Machine.ZeroOne
import Bitonic.Proofs.CommandLine.Outcomes
import Bitonic.Proofs.Lane.ExchangeContract
import Bitonic.Proofs.Network.Mirror
import Bitonic.Proofs.Plan.Emission
import Bitonic.Proofs.RegisterNetwork.Arranges
import Bitonic.Proofs.Machine.Mirror
import Bitonic.Proofs.Listing.Generated
import Bitonic.Proofs.Output.LimitedWriter
import Bitonic.Proofs.Machine.BoundedPlans
import Bitonic.Proofs.Plan.Reach
import Bitonic.Proofs.Machine.VerificationInputs
import Bitonic.Proofs.Machine.CallDepth
import Bitonic.Proofs.Machine.Framing
import Bitonic.Proofs.Lane.PartnerTable
