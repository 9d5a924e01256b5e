import Systolic.Chip.Timing
import Systolic.Storage.Tile

/-!
# Weight bursts

The tile reader streams one tile out of the weight store, a burst per cycle, after the access latency. A tile that is no
whole number of bursts ends in a short one.
-/

namespace Systolic

/-- A tile being read. -/
structure TileReader.Job where
  tile : UInt64
  /-- Cycles before the first burst. -/
  wait : Nat
  /-- The next burst. -/
  next : Nat
  deriving DecidableEq

structure TileReader where
  job : Option TileReader.Job := none
  deriving DecidableEq

namespace TileReader

/-- Burst `k` of a tile. -/
def burst (chip : Chip) (tile : Row) (k : Nat) : Row := (tile.drop (k * chip.burstElems)).take chip.burstElems

/-- One cycle of a job without a request: what is left of it, and the burst it emits. -/
def Job.step (chip : Chip) (store : TileStore) (j : Job) : Option Job × Option Row :=
  if 0 < j.wait then (some { j with wait := j.wait - 1 }, none)
  else
    (if j.next + 1 < chip.burstsPerTile then some { j with next := j.next + 1 } else none,
      some (burst chip (store.read j.tile) j.next))

/-- One cycle. A request replaces what is left of the running job. -/
def step (chip : Chip) (r : TileReader) (request : Option UInt64) (store : TileStore) : TileReader × Option Row :=
  let (job, burst) := (r.job.map (Job.step chip store)).getD (none, none)
  (⟨(request.map fun tile => ⟨tile, chip.latency, 0⟩).or job⟩, burst)

def busy (r : TileReader) : Bool := r.job.isSome

/-- Every register back at its power-on value. -/
def clear (_ : TileReader) : TileReader := {}

end TileReader

end Systolic
