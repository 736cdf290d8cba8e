import RingTape.Code.Brackets
import RingTape.Flat
import RingTape.Main
import RingTape.Proofs.Rendering
import RingTape.Proofs.Jumps
import RingTape.Proofs.Verdict
import RingTape.Proofs.Cancellation
import RingTape.Proofs.Discipline
import RingTape.Proofs.Lifecycle
import RingTape.Proofs.Places
import RingTape.Proofs.Aftermath
import RingTape.Proofs.Truncation
import RingTape.Proofs.Sequencing
import RingTape.Proofs.Sources
import RingTape.Proofs.Extensions
import RingTape.Proofs.Offsets
import RingTape.Proofs.Parts
import RingTape.Proofs.Symmetry
import RingTape.Proofs.Interruptions
import RingTape.Proofs.Causality
import RingTape.Proofs.Compositionality
import RingTape.Proofs.Multiplication
import RingTape.Proofs.Handles
import RingTape.Proofs.Sessions
import RingTape.Proofs.Reports
import RingTape.Proofs.Layouts
import RingTape.Proofs.Echo
import RingTape.Proofs.TimeLimits
import RingTape.Proofs.Invocations
import RingTape.Proofs.StandardInput
import RingTape.Proofs.LoopBodies
import RingTape.Proofs.Activations
