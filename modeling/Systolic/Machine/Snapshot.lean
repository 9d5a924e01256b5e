import Systolic.Machine.Basic

/-!
# Snapshots

The state of a machine that shows from outside: counters, the memories that results are read from, and the weight queue
slot by slot.
-/

namespace Systolic

structure TileQueue.Snapshot where
  /-- Complete tiles held. -/
  occupancy : Nat
  /-- Elements of slot 1 that have arrived. -/
  filling : Nat
  /-- The elements of the tile in each slot, slot 1 first. -/
  slots : List (Option Row)
  deriving DecidableEq

def TileQueue.snapshot (size : Nat) (q : TileQueue) : TileQueue.Snapshot :=
  { occupancy := q.occupancy size
    filling := min q.filled (size * size)
    slots := (q.slots size).map (·.map (·.cells)) }

namespace Machine

structure Snapshot where
  cycle : Nat
  pc : UInt64
  halted : Bool
  busy : Busy
  pad : Array Row
  acc : Array Row
  queue : TileQueue.Snapshot
  host : Array Row
  deriving DecidableEq

def snapshot (m : Machine) : Snapshot :=
  { cycle := m.cycle
    pc := m.pc
    halted := m.halted
    busy := m.busy
    pad := m.memories.pad.rows
    acc := m.memories.acc.rows
    queue := m.pipeline.queue.snapshot m.chip.size
    host := m.memories.host.rows }

end Machine

end Systolic
