import StridedTensor.Binary.Arithmetic
import StridedTensor.Binary.Decimal
import StridedTensor.Binary.Elementary
import StridedTensor.Bytes
import StridedTensor.Context.Access
import StridedTensor.Context.Transfer
import StridedTensor.Kernel.Call
import StridedTensor.Proofs.Acceptance
import StridedTensor.Proofs.Access
import StridedTensor.Proofs.Assignment
import StridedTensor.Proofs.Axes
import StridedTensor.Proofs.Blame
import StridedTensor.Proofs.Broadcasting
import StridedTensor.Proofs.Codec
import StridedTensor.Proofs.Coherence
import StridedTensor.Proofs.Concealment
import StridedTensor.Proofs.Congruence
import StridedTensor.Proofs.Conservation
import StridedTensor.Proofs.Containment
import StridedTensor.Proofs.Contiguity
import StridedTensor.Proofs.Effect
import StridedTensor.Proofs.Extremes
import StridedTensor.Proofs.Isolation
import StridedTensor.Proofs.Modes
import StridedTensor.Proofs.Outcome
import StridedTensor.Proofs.Overflow
import StridedTensor.Proofs.Ownership
import StridedTensor.Proofs.Promotion
import StridedTensor.Proofs.Reading
import StridedTensor.Proofs.Repetition
import StridedTensor.Proofs.Representation
import StridedTensor.Proofs.Reshaping
import StridedTensor.Proofs.Retirement
import StridedTensor.Proofs.Rollback
import StridedTensor.Proofs.RowReduction
import StridedTensor.Proofs.ScalarOperand
import StridedTensor.Proofs.Selection
import StridedTensor.Proofs.Slicing
import StridedTensor.Proofs.Stale
import StridedTensor.Proofs.Storing
import StridedTensor.Proofs.Traffic
import StridedTensor.Proofs.Truncation
import StridedTensor.Proofs.ViewAlgebra
import StridedTensor.Proofs.ViewMap
import StridedTensor.Scalar.Arithmetic
import StridedTensor.Session.Event
import StridedTensor.Stream
