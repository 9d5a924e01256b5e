import Systolic.Clocked.Wire
import Systolic.Pipeline.Command
import Systolic.Pipeline.Outcome
import Systolic.Storage.Row

/-!
# The host link

Moves rows between the host memory and the scratchpad, one per cycle. A row that is read from the host passes a response
register and lands one cycle later; a write reaches the host at once and is acknowledged one cycle later.
-/

namespace Systolic

/-- What is left of a transfer. -/
structure HostLink.Job where
  hostAddr : UInt64
  padAddr : UInt64
  remaining : UInt64
  deriving DecidableEq

structure HostLink where
  reading : Option HostLink.Job := none
  writing : Option HostLink.Job := none
  /-- The row that lands in the scratchpad this cycle. -/
  response : Wire RowStore.Write := .idle
  /-- The host row whose write is acknowledged this cycle. -/
  ack : Wire UInt64 := .idle
  deriving DecidableEq

namespace HostLink

structure Output where
  padWrite : Option RowStore.Write := none
  hostWrite : Option RowStore.Write := none
  acked : Option UInt64 := none
  deriving DecidableEq

/-- A row that jumps to `target` when an activation reads it back. -/
def jumpRow (chip : Chip) (target : UInt64) : Row :=
  ((Row.fit chip.size []).set 1 (Word.wrap chip.dataWidth target.toInt64)).set (chip.size - 1) Tag.jump.code

def Job.ofTransfer (t : Transfer) : Job := ⟨t.hostAddr, t.padAddr, t.length⟩

/-- The job after its next row. -/
def Job.next? (j : Job) : Option Job :=
  if 1 < j.remaining then some ⟨j.hostAddr + 1, j.padAddr + 1, j.remaining - 1⟩ else none

variable (link : HostLink)

/-- The read that runs this cycle, if it has a row left. -/
def reading? (issue : Option Command) : Option Job :=
  (match issue with
    | some (.readHost t) => some (Job.ofTransfer t)
    | _ => link.reading).filter (·.remaining != 0)

/-- The write that runs this cycle, if it has a row left. -/
def writing? (issue : Option Command) : Option Job :=
  (match issue with
    | some (.writeHost t) => some (Job.ofTransfer t)
    | _ => link.writing).filter (·.remaining != 0)

/-- The row that enters the response register: the host row that is read, else the jump row that is asked for. -/
def respond? (chip : Chip) (host : RowStore) (issue : Option Command) : Option RowStore.Write :=
  match link.reading? issue, issue with
  | some j, _ => some ⟨j.padAddr, host.read j.hostAddr⟩
  | none, some (.placeJump target padAddr) => some ⟨padAddr, jumpRow chip target⟩
  | none, _ => none

/-- One cycle. A command replaces the running job of its direction. -/
def step (chip : Chip) (issue : Option Command) (pad host : RowStore) : HostLink × Output :=
  let writing := link.writing? issue
  ({  reading := (link.reading? issue).bind (·.next?)
      writing := writing.bind (·.next?)
      response := ((link.respond? chip host issue).map .drive).getD link.response.clear
      ack := (writing.map fun j => .drive j.hostAddr).getD link.ack.clear },
    { padWrite := link.response.get?
      hostWrite := writing.map fun j => ⟨j.hostAddr, pad.read j.padAddr⟩
      acked := link.ack.get? })

def busy : Bool := link.reading.isSome || link.writing.isSome || link.response.valid

/-- No job and nothing under way. -/
def clear : HostLink := ⟨none, none, link.response.clear, link.ack.clear⟩

end HostLink

end Systolic
