import CanTransport.Bench.Contention
import CanTransport.Bench.Exchange
import CanTransport.Bench.Link
import CanTransport.Bench.Reservations
import CanTransport.Bench.Timekeeping
import CanTransport.Proofs.Adjustment
import CanTransport.Proofs.BlockAgreement
import CanTransport.Proofs.Codec
import CanTransport.Proofs.Confirmation
import CanTransport.Proofs.Conformance
import CanTransport.Proofs.Conservation
import CanTransport.Proofs.Correlation
import CanTransport.Proofs.Crossing
import CanTransport.Proofs.Deadlines
import CanTransport.Proofs.Draining
import CanTransport.Proofs.Expiries
import CanTransport.Proofs.Gathering
import CanTransport.Proofs.HeldFrames
import CanTransport.Proofs.Indications
import CanTransport.Proofs.Isolation
import CanTransport.Proofs.LockWaits
import CanTransport.Proofs.LossyLine
import CanTransport.Proofs.OneFrame
import CanTransport.Proofs.Pacing
import CanTransport.Proofs.Patience
import CanTransport.Proofs.Reentry
import CanTransport.Proofs.Renewal
import CanTransport.Proofs.RequestOrder
import CanTransport.Proofs.RoundTrip
import CanTransport.Proofs.Settling
import CanTransport.Proofs.Supervision
import CanTransport.Proofs.Transmission
import CanTransport.Proofs.Verdicts
