import Systolic.Chip.Basic

/-!
# How long each unit is busy

The sequencer never asks a unit whether it is done: it counts down a duration fixed at dispatch. Every duration is a
closed formula in the parameters and the instruction's length, a sum of 64-bit words that wraps around: a length or a
latency near the end of the range gives a duration that is far too short.
-/

namespace Systolic

/-- Tile slots in front of the array. -/
def queueDepth : Nat := 4

/-- Cycles between the last row's entry into the skew lines and the wavefront's, beyond crossing the array and the
accumulators. -/
def drainCycles : Nat := 2

/-- A host transfer of `length` rows; a read lands one cycle after its request. -/
def hostCycles (length : UInt64) : UInt64 := length + 1

/-- An activation of `length` rows. -/
def activateCycles (length : UInt64) : UInt64 := length

namespace Chip

variable (c : Chip)

/-- Elements of one weight burst. -/
def burstElems : Nat := c.burstBytes * 8 / c.dataWidth

/-- Bursts that carry one `N × N` tile; the last may be short. -/
def burstsPerTile : Nat := (c.size * c.size + c.burstElems - 1) / c.burstElems

/-- A multiplication of `length` rows. -/
def matrixCycles (length : UInt64) : UInt64 := 2 * .ofNat c.size + length + .ofNat drainCycles

/-- A weight read: the access, the bursts, the ripple through the queue and the programming of the array. -/
def weightCycles : UInt64 := .ofNat (c.burstsPerTile + c.latency + c.size + queueDepth)

/-- Cycles before another weight switch may follow a switch. -/
def switchCycles : UInt64 := .ofNat c.size + 1

end Chip

end Systolic
