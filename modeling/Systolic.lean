import Systolic.Main
import Systolic.Proofs.Bytes.RoundTrip
import Systolic.Proofs.Course.Schedule
import Systolic.Proofs.Sequential.Refinement
import Systolic.Proofs.Occupancy.Units
import Systolic.Proofs.Occupancy.Array
import Systolic.Proofs.Occupancy.Reachable
import Systolic.Proofs.Queue.Stream
import Systolic.Proofs.Flow.Path
import Systolic.Proofs.Transfer.Link
import Systolic.Proofs.Transfer.Run
import Systolic.Proofs.Sequential.Overlap
import Systolic.Proofs.Sequential.Blocks
import Systolic.Proofs.Sequential.BlockedRun
import Systolic.Proofs.Flow.Halting
import Systolic.Proofs.Course.AccWrites
import Systolic.Proofs.Course.Streams
import Systolic.Proofs.Course.RowWrites
import Systolic.Machine.Snapshot
import Systolic.Proofs.Machine.Operation
import Systolic.Proofs.Machine.Shape
import Systolic.Proofs.Storage.Signed
import Systolic.Proofs.Width.Units
import Systolic.Proofs.Width.Reachable
import Systolic.Proofs.Policy.Agreement
import Systolic.Proofs.Reset.Stale
import Systolic.Proofs.Reset.PowerOn
import Systolic.Proofs.Checked.Basic
import Systolic.Proofs.Checked.Storage
import Systolic.Proofs.Checked.Units
import Systolic.Proofs.Checked.Array
import Systolic.Proofs.Checked.Machine
import Systolic.Proofs.Flow.Standstill
import Systolic.Proofs.Encoding.Instruction
import Systolic.Proofs.Encoding.Program
import Systolic.Proofs.Bytes.Chunks
import Systolic.Proofs.Image.Elements
import Systolic.Proofs.Image.Load
import Systolic.Proofs.Image.RoundTrip
import Systolic.Proofs.Session.Drivers
import Systolic.Proofs.Queue.Handover
import Systolic.Proofs.Queue.Bubbles
import Systolic.Proofs.Course.Overflow
import Systolic.Proofs.Course.Freshness
import Systolic.Proofs.Flow.JumpRow
import Systolic.Proofs.Session.Grammar
import Systolic.Proofs.Mesh.Column
import Systolic.Proofs.Mesh.Alignment
import Systolic.Proofs.Clocked.Spans
