import Systolic.Proofs.Machine.Shape
import Systolic.Proofs.Policy.Agreement

/-!
# Handing weights over

How a tile gets from the queue into the array. The array never asks whether a tile stands at the front while it programs
one: that it does is a matter of both (`Machine.Coupled`). A window opens only with a tile at the front, the queue keeps
that tile, and the array drops it with the last step of the window, whatever switches come in meanwhile (`step_of_none`,
`step_of_ne`, `step_of_last`).

A machine is followed with the tiles that have come into its queue, those that have left it and everything that has been
broadcast (`Machine.HandedOver`). So the queue gives its tiles away in order, and what has been broadcast are the rows of
exactly these tiles, each whole and from the bottom up, before those of the window that is open
(`Machine.HandedOver.balance`).
-/

namespace Systolic

/-! ## The queue as a list -/

namespace TileQueue

variable (size : Nat) (q : TileQueue)

/-- The complete tiles behind the front slot. -/
def behind : List Tile := q.third.toList ++ q.second.toList ++ (q.first size).toList

/-- The complete tiles in the queue, the front one first. -/
def contents : List Tile := q.front.toList ++ q.behind size

/-- The tile that has become complete when the queue is `next`: a whole one in slot 1 that did not stand there before. -/
def arrival? (next : TileQueue) : Option Tile :=
  if q.full size && !q.drains size then none else next.first size

variable {size : Nat} {q : TileQueue}

/-- A tile that cannot leave slot 1 stays there, whether a burst is lost or not. -/
theorem first_of_stuck (h : q.full size = true) (hd : q.drains size = false) (burst? : Option Row) (advance : Bool) :
    (q.step size burst? advance).1.first size = q.first size := by
  have hle : size * size ≤ q.filled := of_decide_eq_true h
  have hfill : (q.step size burst? advance).1.fill = q.fill := by
    cases burst? <;> simp [step, append, h, hd, hle]
  have hfull : (q.step size burst? advance).1.full size = true := by
    cases burst? <;> simp [step, full, hd, hle]
  rw [first, first, hfull, h, hfill]

/-- The slots behind slot 1, with the tile that slot 1 hands on. -/
theorem slots_step (burst? : Option Row) (advance : Bool) : (q.step size burst? advance).1.front.toList ++
    (q.step size burst? advance).1.third.toList ++ (q.step size burst? advance).1.second.toList =
    (if advance then [] else q.front.toList) ++ q.third.toList ++ q.second.toList ++
      if q.second.isNone then (q.first size).toList else [] := by
  simp only [step]
  cases q.front <;> cases q.third <;> cases q.second <;> cases q.first size <;> cases advance <;> rfl

/-- **One cycle of the queue.** The array takes the front tile or none, and what becomes complete is the last one. -/
theorem contents_step (burst? : Option Row) (advance : Bool) : (q.step size burst? advance).1.contents size =
    (if advance then [] else q.front.toList) ++ q.behind size ++
      (q.arrival? size (q.step size burst? advance).1).toList := by
  rw [contents, behind, ← List.append_assoc, ← List.append_assoc, slots_step, behind, arrival?]
  cases hfull : q.full size with
  | false =>
    have hfirst : q.first size = none := by rw [first, hfull]; rfl
    simp [hfirst]
  | true =>
    cases hs : q.second with
    | none =>
      have hd : q.drains size = true := by rw [drains, hfull, hs]; rfl
      simp [hd]
    | some T =>
      have hd : q.drains size = false := by rw [drains, hfull, hs]; rfl
      rw [first_of_stuck hfull hd]
      simp [hd]

end TileQueue

/-! ## The window of the array -/

namespace Mesh

variable {mesh : Mesh} {size k : Nat} {lanes : List Lane} {front? : Option Tile}

/-- A window opens in front of a tile. -/
theorem of_opens (hp : mesh.programming = none) (h : (mesh.nextProgramming size lanes front?).1 = some k) :
    k = 0 ∧ (mesh.nextProgramming size lanes front?).2 = false ∧ front?.isSome = true := by
  simp only [nextProgramming, hp] at h ⊢
  split at h
  case isTrue hopen =>
    rw [if_pos hopen]
    exact ⟨(Option.some.inj h).symm, rfl, (Bool.and_eq_true_iff.1 hopen).2⟩
  case isFalse => cases h

end Mesh

/-! ## The array and the queue together -/

/-- One step of a broadcast. -/
structure Broadcast where
  /-- The step of the window. -/
  step : Nat
  /-- The tile at the front of the queue. -/
  front : Option Tile
  /-- What goes to each column. -/
  feeds : List Feed
  deriving DecidableEq

namespace Broadcast

/-- Step `k` of a window for tile `T`: its row `size - 1 - k`. -/
def row (size : Nat) (T : Tile) (k : Nat) : Broadcast :=
  ⟨k, some T, (List.range size).map fun c => ⟨(T.row (size - 1 - k)).getD c 0, k, true⟩⟩

/-- All rows of tile `T`, the last one first. -/
def window (size : Nat) (T : Tile) : List Broadcast := (List.range size).map (row size T)

end Broadcast

namespace Machine

variable (m : Machine)

/-- What the array broadcasts with the next tick, if a window is open. -/
def broadcast? : Option Broadcast :=
  if m.tick.isOk then
    m.pipeline.mesh.programming.map fun k => ⟨k, m.pipeline.queue.front,
      (List.range m.chip.size).map (m.pipeline.mesh.broadcast m.chip.size m.pipeline.queue.front)⟩
  else none

/-- The tile that becomes complete in slot 1 with the next tick. -/
def completed? : Option Tile :=
  if m.tick.isOk then m.pipeline.queue.arrival? m.chip.size m.ticked.pipeline.queue else none

/-- The tile that leaves the front slot with the next tick. -/
def left? : Option Tile :=
  match m.pipeline.queue.front, m.ticked.pipeline.queue.front with
  | some T, none => some T
  | _, _ => none

/-- What has been broadcast in the window that is open. -/
def begun : List Broadcast :=
  match m.pipeline.mesh.programming, m.pipeline.queue.front with
  | some k, some T => (List.range k).map (Broadcast.row m.chip.size T)
  | _, _ => []

/-- While a window is open, nothing is staged and a tile stands at the front. -/
def Coupled : Prop := ∀ k, m.pipeline.mesh.programming = some k →
  m.pipeline.mesh.loaded = false ∧ ∃ T, m.pipeline.queue.front = some T

variable {m : Machine} {k : Nat} {T : Tile}

/-! ### One cycle -/

theorem queue_step : m.step.1.pipeline.queue = (m.pipeline.queue.step m.chip.size
    (m.pipeline.reader.step m.chip (m.issue.bind (·.tile?)) m.memories.weights).2
    (m.pipeline.mesh.advance m.chip.size)).1 := rfl

theorem front_step : m.step.1.pipeline.queue.front =
    TileQueue.ripple m.pipeline.queue.third m.pipeline.queue.front (m.pipeline.mesh.advance m.chip.size) := rfl

theorem programming_loaded_step : (m.step.1.pipeline.mesh.programming, m.step.1.pipeline.mesh.loaded) =
    m.pipeline.mesh.nextProgramming m.chip.size m.skewed.lanes m.pipeline.queue.front := rfl

/-- The last step of a window: the tile is staged and leaves the queue. -/
theorem step_of_last (hp : m.pipeline.mesh.programming = some k) (hf : m.pipeline.queue.front = some T)
    (hk : k + 1 = m.chip.size) : m.step.1.pipeline.mesh.programming = none ∧
      m.step.1.pipeline.mesh.loaded = true ∧ m.step.1.pipeline.queue.front = none := by
  have hnext := m.programming_loaded_step
  rw [Mesh.nextProgramming_of_last _ _ hp hk, Prod.mk.injEq] at hnext
  refine ⟨hnext.1, hnext.2, ?_⟩
  rw [front_step, hf, Mesh.advance_iff.2 ⟨k, hp, hk⟩]
  rfl

/-- Any other step of a window: the queue keeps the tile. -/
theorem step_of_ne (hp : m.pipeline.mesh.programming = some k) (hl : m.pipeline.mesh.loaded = false)
    (hf : m.pipeline.queue.front = some T) (hk : k + 1 ≠ m.chip.size) :
    m.step.1.pipeline.mesh.programming = some (k + 1) ∧ m.step.1.pipeline.mesh.loaded = false ∧
      m.step.1.pipeline.queue.front = some T := by
  have hnext := m.programming_loaded_step
  rw [Mesh.nextProgramming_of_ne _ _ hp hk, hl, Bool.false_and, Prod.mk.injEq] at hnext
  refine ⟨hnext.1, hnext.2, ?_⟩
  rw [front_step, hf, Mesh.advance_of_ne hp hk]
  rfl

/-- Between two windows the queue keeps a tile at the front, and the next window opens only with one. -/
theorem step_of_none (hp : m.pipeline.mesh.programming = none) : m.pipeline.mesh.advance m.chip.size = false ∧
    (∀ T, m.pipeline.queue.front = some T → m.step.1.pipeline.queue.front = some T) ∧
    ∀ k, m.step.1.pipeline.mesh.programming = some k →
      k = 0 ∧ m.step.1.pipeline.mesh.loaded = false ∧ ∃ T, m.pipeline.queue.front = some T := by
  refine ⟨Mesh.advance_of_none hp, ?_, ?_⟩
  · intro T hf
    rw [front_step, hf, Mesh.advance_of_none hp]
    rfl
  · intro k hk
    obtain ⟨rfl, hl, hf⟩ := Mesh.of_opens hp hk
    exact ⟨rfl, hl, Option.isSome_iff_exists.1 hf⟩

theorem Coupled.step (h : m.Coupled) : m.step.1.Coupled := by
  intro k hk
  cases hp : m.pipeline.mesh.programming with
  | none =>
    obtain ⟨-, hstays, hopens⟩ := step_of_none hp
    obtain ⟨-, hl, T, hf⟩ := hopens k hk
    exact ⟨hl, T, hstays T hf⟩
  | some i =>
    obtain ⟨hl, T, hf⟩ := h i hp
    by_cases hi : i + 1 = m.chip.size
    · rw [(step_of_last hp hf hi).1] at hk
      cases hk
    · obtain ⟨-, hl, hf⟩ := step_of_ne hp hl hf hi
      exact ⟨hl, T, hf⟩

theorem Reachable.coupled {chip : Chip} {program : Program} (h : Reachable chip program m) : m.Coupled := by
  refine h.invariant (P := Coupled) ?_ (fun _ _ hm => hm.step) ?_ ?_
  · intro k hk
    cases hk
  · intro m _ _ k hk
    cases hk
  · intro m p _ hm
    rw [Coupled, pipeline_poke]
    exact hm

/-! ### Whole runs -/

/-- A reachable machine with what has happened since power-on or the last reset: the tiles that have become complete, those
that have left at the front, and everything that has been broadcast. -/
inductive HandedOver (chip : Chip) (program : Program) : Machine → List Tile → List Tile → List Broadcast → Prop
  | build {m : Machine} (h : Machine.build chip program = .ok m) : HandedOver chip program m [] [] []
  | tick {m : Machine} {entered left : List Tile} {log : List Broadcast} (h : HandedOver chip program m entered left log) :
      HandedOver chip program m.ticked (entered ++ m.completed?.toList) (left ++ m.left?.toList)
        (log ++ m.broadcast?.toList)
  | reset {m : Machine} {entered left : List Tile} {log : List Broadcast} (h : HandedOver chip program m entered left log) :
      HandedOver chip program m.reset [] [] []
  | poke {m : Machine} {entered left : List Tile} {log : List Broadcast} (h : HandedOver chip program m entered left log)
      (p : Poke) : HandedOver chip program (m.poke p) entered left log

variable {chip : Chip} {program : Program} {entered left : List Tile} {log : List Broadcast}

theorem HandedOver.reachable (h : HandedOver chip program m entered left log) : Reachable chip program m := by
  induction h with
  | build h => exact .build h
  | tick _ ih => exact .tick ih
  | reset _ ih => exact .reset ih
  | poke _ p ih => exact .poke ih p

theorem Reachable.handedOver (h : Reachable chip program m) :
    ∃ entered left log, HandedOver chip program m entered left log := by
  induction h with
  | build h => exact ⟨_, _, _, .build h⟩
  | tick _ ih =>
    obtain ⟨_, _, _, ih⟩ := ih
    exact ⟨_, _, _, .tick ih⟩
  | reset _ ih =>
    obtain ⟨_, _, _, ih⟩ := ih
    exact ⟨_, _, _, .reset ih⟩
  | poke _ p ih =>
    obtain ⟨_, _, _, ih⟩ := ih
    exact ⟨_, _, _, .poke ih p⟩

/-- Every tile that has come in has left or stands in the queue, and what has been broadcast are the tiles that have left
and what the open window has behind it. -/
structure Balance (m : Machine) (entered left : List Tile) (log : List Broadcast) : Prop where
  entered : entered = left ++ m.pipeline.queue.contents m.chip.size
  log : log = left.flatMap (Broadcast.window m.chip.size) ++ m.begun

/-- A tick that fails leaves the machine as it is. -/
theorem ticked_of_fails (hok : m.tick.isOk = false) : m.ticked = m := by
  rcases m.tick_eq with htick | ⟨-, z, htick⟩
  · rw [htick] at hok
    cases hok
  · exact ticked_of_error htick

theorem left?_of_fails (hok : m.tick.isOk = false) : m.left? = none := by
  rw [left?, ticked_of_fails hok]
  cases m.pipeline.queue.front <;> rfl

theorem left?_eq (hm : m.ticked = m.step.1) :
    m.left? = if m.pipeline.mesh.advance m.chip.size then m.pipeline.queue.front else none := by
  rw [left?, hm, front_step]
  cases m.pipeline.queue.front <;> cases m.pipeline.mesh.advance m.chip.size <;> rfl

theorem broadcast?_eq (hok : m.tick.isOk = true) (hp : m.pipeline.mesh.programming = some k)
    (hf : m.pipeline.queue.front = some T) : m.broadcast? = some (Broadcast.row m.chip.size T k) := by
  simp [broadcast?, Broadcast.row, Mesh.broadcast, hok, hp, hf]

/-- What a cycle broadcasts belongs to the open window, which ends when its tile leaves. -/
theorem begun_step (h : m.Coupled) (hok : m.tick.isOk = true) : m.begun ++ m.broadcast?.toList =
    m.left?.toList.flatMap (Broadcast.window m.chip.size) ++ m.step.1.begun := by
  rw [left?_eq (of_tick_isOk hok).1]
  cases hp : m.pipeline.mesh.programming with
  | none =>
    obtain ⟨ha, hstays, hopens⟩ := step_of_none hp
    have hbegun : m.step.1.begun = [] := by
      unfold begun
      cases hp' : m.step.1.pipeline.mesh.programming with
      | none => rfl
      | some k =>
        obtain ⟨rfl, -, T, hf⟩ := hopens k hp'
        rw [hstays T hf]
        rfl
    have hbroadcast : m.broadcast? = none := by simp [broadcast?, hp]
    rw [hbegun, hbroadcast, ha, begun, hp]
    rfl
  | some k =>
    obtain ⟨hl, T, hf⟩ := h k hp
    have hbegun : m.begun = (List.range k).map (Broadcast.row m.chip.size T) := by rw [begun, hp, hf]
    rw [hbegun, broadcast?_eq hok hp hf]
    by_cases hk : k + 1 = m.chip.size
    · obtain ⟨hp', -, -⟩ := step_of_last hp hf hk
      rw [Mesh.advance_iff.2 ⟨k, hp, hk⟩, hf, show m.step.1.begun = [] by rw [begun, hp']]
      simp [Broadcast.window, ← hk, List.range_succ]
    · obtain ⟨hp', -, hf'⟩ := step_of_ne hp hl hf hk
      have hbegun' : m.step.1.begun = (List.range (k + 1)).map (Broadcast.row m.chip.size T) := by
        rw [begun, hp', hf']
        rfl
      rw [hbegun', Mesh.advance_of_ne hp hk]
      simp [List.range_succ]

/-- The queue after a cycle, with the tile that has left it and the one that has become complete. -/
theorem contents_step (hok : m.tick.isOk = true) :
    m.left?.toList ++ m.step.1.pipeline.queue.contents m.chip.size =
      m.pipeline.queue.contents m.chip.size ++ m.completed?.toList := by
  obtain ⟨hm, -⟩ := of_tick_isOk hok
  rw [left?_eq hm, completed?, if_pos hok, hm, queue_step, TileQueue.contents_step, TileQueue.contents]
  cases m.pipeline.mesh.advance m.chip.size <;> simp

theorem Balance.step (h : m.Balance entered left log) (hcoupled : m.Coupled) (hok : m.tick.isOk = true) :
    m.step.1.Balance (entered ++ m.completed?.toList) (left ++ m.left?.toList) (log ++ m.broadcast?.toList) := by
  constructor
  · rw [h.entered, List.append_assoc, List.append_assoc, ← contents_step hok]
    rfl
  · rw [h.log, List.append_assoc, begun_step hcoupled hok, List.flatMap_append, List.append_assoc]
    rfl

/-- A tick that fails does nothing. -/
theorem Balance.of_fails (h : m.Balance entered left log) (hok : m.tick.isOk = false) :
    m.ticked.Balance (entered ++ m.completed?.toList) (left ++ m.left?.toList) (log ++ m.broadcast?.toList) := by
  have hcompleted : m.completed? = none := by rw [completed?, hok]; rfl
  have hbroadcast : m.broadcast? = none := by rw [broadcast?, hok]; rfl
  rw [ticked_of_fails hok, left?_of_fails hok, hcompleted, hbroadcast]
  simpa using h

/-- An empty queue and no window. -/
theorem Balance.start (hsize : 0 < m.chip.size) (hfilled : m.pipeline.queue.filled = 0)
    (htiles : m.pipeline.queue.tiles = []) (hp : m.pipeline.mesh.programming = none) : m.Balance [] [] [] := by
  constructor
  · have hfirst : m.pipeline.queue.first m.chip.size = none := by
      simp [TileQueue.first, TileQueue.full, hfilled, hsize.ne']
    obtain ⟨hsecond, hthird, hfront⟩ : m.pipeline.queue.second = none ∧ m.pipeline.queue.third = none ∧
        m.pipeline.queue.front = none := by
      simpa [TileQueue.tiles] using htiles
    rw [TileQueue.contents, TileQueue.behind, hfront, hthird, hsecond, hfirst]
    rfl
  · rw [begun, hp]
    rfl

theorem HandedOver.balance (h : HandedOver chip program m entered left log) : m.Balance entered left log := by
  induction h with
  | build h =>
    obtain ⟨hvalid, rfl⟩ := of_build h
    exact Balance.start (m := powerOn chip program) hvalid.size_pos rfl rfl rfl
  | @tick m _ _ _ hm ih =>
    cases hok : m.tick.isOk with
    | true =>
      rw [(of_tick_isOk hok).1]
      exact ih.step hm.reachable.coupled hok
    | false => exact ih.of_fails hok
  | @reset m _ _ _ hm ih =>
    have hsize : 0 < m.chip.size := hm.reachable.formed.chip_eq ▸ hm.reachable.formed.valid.size_pos
    exact Balance.start (m := m.reset) hsize rfl rfl rfl
  | @poke m _ _ _ hm p ih =>
    constructor
    · rw [pipeline_poke, chip_poke]
      exact ih.entered
    · rw [begun, pipeline_poke, chip_poke]
      exact ih.log

/-- **Weights are handed over tile by tile.** In every reachable machine:

- While a window is open, it is at one of its `size` steps, nothing is staged and a tile stands at the front. The next
  tick, unless it fails and does nothing, broadcasts a row of that tile, the last one first. The tile stays at the front,
  up to the last step, which stages it and takes it out of the queue.
- The array drops the front tile in the last step of a window and never else, and no tile leaves without that.
- The tiles that have become complete are those that have left and those that stand in the queue, in this order. What has
  been broadcast are all rows of the tiles that have left, tile after tile, and the first rows of the front tile as far as
  its window has come. -/
theorem Reachable.handover (h : Reachable chip program m) :
    (∀ k, m.pipeline.mesh.programming = some k → k < chip.size ∧ m.pipeline.mesh.loaded = false ∧
      ∃ T, m.pipeline.queue.front = some T ∧ (m.tick.isOk = true →
        m.broadcast? = some (Broadcast.row chip.size T k) ∧
        if k + 1 = chip.size then
          m.left? = some T ∧ m.ticked.pipeline.mesh.programming = none ∧ m.ticked.pipeline.mesh.loaded = true
        else
          m.ticked.pipeline.queue.front = some T ∧ m.ticked.pipeline.mesh.programming = some (k + 1))) ∧
    (m.product.advance = true ↔ ∃ k, m.pipeline.mesh.programming = some k ∧ k + 1 = chip.size) ∧
    (∀ T, m.left? = some T ↔
      m.tick.isOk = true ∧ m.product.advance = true ∧ m.pipeline.queue.front = some T) ∧
    (∃ entered left log, HandedOver chip program m entered left log) ∧
    ∀ entered left log, HandedOver chip program m entered left log →
      entered = left ++ m.pipeline.queue.contents chip.size ∧
      log = left.flatMap (Broadcast.window chip.size) ++ m.begun := by
  obtain rfl := h.formed.chip_eq
  refine ⟨?_, Mesh.advance_iff, ?_, h.handedOver, ?_⟩
  · intro k hp
    obtain ⟨hl, T, hf⟩ := h.coupled k hp
    refine ⟨h.formed.pipeline.programming k hp, hl, T, hf, ?_⟩
    intro hok
    obtain ⟨hm, -⟩ := of_tick_isOk hok
    refine ⟨broadcast?_eq hok hp hf, ?_⟩
    rw [hm]
    split
    case isTrue hk =>
      obtain ⟨hp', hl', -⟩ := step_of_last hp hf hk
      rw [left?_eq hm, Mesh.advance_iff.2 ⟨k, hp, hk⟩]
      exact ⟨hf, hp', hl'⟩
    case isFalse hk =>
      obtain ⟨hp', -, hf'⟩ := step_of_ne hp hl hf hk
      exact ⟨hf', hp'⟩
  · intro T
    cases hok : m.tick.isOk with
    | false => simp [left?_of_fails hok]
    | true =>
      have ha : m.product.advance = m.pipeline.mesh.advance m.chip.size := rfl
      rw [left?_eq (of_tick_isOk hok).1, ha]
      cases m.pipeline.mesh.advance m.chip.size <;> simp
  · intro entered left log hm
    obtain ⟨hentered, hlog⟩ := hm.balance
    exact ⟨hentered, hlog⟩

/-- The last step of the window for a tile. -/
def lastStep : Machine :=
  let chip : Chip := { size := 4, padRows := 1, accRows := 1, hostRows := 1, tiles := 1, latency := 0 }
  let poked := (powerOn chip ⟨[.readWeights 0, .halt]⟩).poke
    (.tile 0 [1, 2, 3, 4, 5, 6, 7, 8, 9, 10, 11, 12, 13, 14, 15, 16])
  poked.performAll (List.replicate 10 .tick)

theorem Reachable.handover_lastStep :
    let T := Tile.ofRow 4 [1, 2, 3, 4, 5, 6, 7, 8, 9, 10, 11, 12, 13, 14, 15, 16]
    Reachable lastStep.chip lastStep.program lastStep ∧ lastStep.pipeline.mesh.programming = some 3 ∧
      lastStep.left? = some T ∧
      lastStep.broadcast? = some ⟨3, some T, [⟨1, 3, true⟩, ⟨2, 3, true⟩, ⟨3, 3, true⟩, ⟨4, 3, true⟩]⟩ := by
  intro T
  have hreach : Reachable lastStep.chip lastStep.program lastStep := ((Reachable.build rfl).poke _).performAll _
  have hlast : lastStep.pipeline.mesh.programming = some 3 := by decide +kernel
  have hfront : lastStep.pipeline.queue.front = some T := by decide +kernel
  have hok : lastStep.tick.isOk = true := by decide +kernel
  have hrow : Broadcast.row lastStep.chip.size T 3 =
      ⟨3, some T, [⟨1, 3, true⟩, ⟨2, 3, true⟩, ⟨3, 3, true⟩, ⟨4, 3, true⟩]⟩ := by decide +kernel
  obtain ⟨-, -, U, hU, hticks⟩ := hreach.handover.1 3 hlast
  obtain rfl : T = U := Option.some.inj (hfront.symm.trans hU)
  obtain ⟨hbroadcast, hleft⟩ := hticks hok
  rw [if_pos (by decide +kernel)] at hleft
  exact ⟨hreach, hlast, hleft.1, hbroadcast.trans (congrArg some hrow)⟩

end Machine

end Systolic
