import Systolic.Proofs.Machine.Shape
import Systolic.Proofs.Reset.Stale

/-!
# Resets

A reset puts every register back to its power-on value, save the values on cleared wires (`Pipeline.Sized.scrub_clear`).
So a machine that is reset, whatever it was doing, is alike to one at power-on that finds its memories, and nobody can
tell the two apart (`Machine.Reachable.reset_observe`).
-/

namespace Systolic

/-- A list of known length in which every element is known. -/
theorem eq_map_range {α : Type} {l : List α} {n : Nat} {f : Nat → α} (hlen : l.length = n)
    (h : ∀ i a, l[i]? = some a → a = f i) : l = (List.range n).map f := by
  apply List.ext_getElem?
  intro i
  by_cases hi : i < l.length
  · have hrange : i < n := hlen ▸ hi
    rw [List.getElem?_map, List.getElem?_range hrange, List.getElem?_eq_getElem hi, Option.map_some,
      h i l[i] (List.getElem?_eq_getElem hi)]
  · rw [List.getElem?_eq_none (Nat.le_of_not_lt hi), List.getElem?_eq_none]
    simp
    omega

namespace Pipeline

variable {chip : Chip} {p : Pipeline}

theorem Sized.skew_clear (h : p.Sized chip) : p.skew.clear = .idle chip.size := by
  have hlanes : p.skew.lanes.map DelayLine.clear = (List.range chip.size).map fun r => .idle (r + 1) := by
    apply eq_map_range
    · rw [List.length_map, h.laneCount]
    · intro r line hline
      rw [List.getElem?_map] at hline
      obtain ⟨old, hold, rfl⟩ := Option.map_eq_some_iff.1 hline
      rw [DelayLine.clear, (h.lanes r old hold).2]
  rw [SkewLines.clear, hlanes, DelayLine.clear, h.control]
  rfl

theorem Sized.mesh_clear (h : p.Sized chip) : p.mesh.clear = .idle chip.size := by
  have hcells : p.mesh.cells.map (fun row => row.map fun _ => ({} : Cell)) =
      List.replicate chip.size (List.replicate chip.size {}) := by
    rw [← h.rows, ← List.map_const']
    apply List.map_congr_left
    intro row hrow
    rw [List.map_const', h.columns row hrow, h.rows]
  have htop : p.mesh.top.map DelayLine.clear = (List.range chip.size).map fun c => .idle c := by
    apply eq_map_range
    · rw [List.length_map, h.topCount]
    · intro c line hline
      rw [List.getElem?_map] at hline
      obtain ⟨old, hold, rfl⟩ := Option.map_eq_some_iff.1 hline
      rw [DelayLine.clear, h.top c old hold]
  rw [Mesh.clear, hcells, htop]
  rfl

theorem Sized.queue_clear (h : p.Sized chip) : p.queue.clear = .empty chip.size := by
  rw [TileQueue.clear, h.fill]
  rfl

theorem Sized.chain_clear (h : p.Sized chip) : p.chain.clear.scrub = (ControlChain.idle chip.size).scrub := by
  have hhops : (p.chain.hops.map Wire.clear).map Wire.scrub =
      (List.replicate (chip.size - 1) (.idle : Wire AccControl)).map Wire.scrub := by
    rw [List.map_map, List.map_replicate, ← h.hops, ← List.map_const']
    rfl
  rw [ControlChain.clear, ControlChain.scrub, hhops]
  rfl

/-- **Every unit reset** is the pipeline at power-on, but for values that do not count. -/
theorem Sized.scrub_clear (h : p.Sized chip) : p.clear.scrub = (idle chip).scrub := by
  calc p.clear.scrub
      = { idle chip with
          skew := p.skew.clear
          mesh := p.mesh.clear
          queue := p.queue.clear
          chain := p.chain.clear.scrub } := rfl
    _ = (idle chip).scrub := by
      rw [h.skew_clear, h.mesh_clear, h.queue_clear, h.chain_clear]
      rfl

end Pipeline

namespace Machine

variable {chip : Chip} {program : Program} {m : Machine}

/-- A machine that is reset is alike to one at power-on that finds its memories. -/
theorem Formed.reset_alike (h : m.Formed chip program) : m.reset.Alike (powerOnWith chip program m.memories) := by
  obtain ⟨-, rfl, rfl, -, -, hpipe⟩ := h
  calc m.reset.scrub
      = { m with pipeline := m.pipeline.clear.scrub, cycle := 0, summary := {} } := rfl
    _ = (powerOnWith m.chip m.program m.memories).scrub := by
      rw [hpipe.scrub_clear]
      rfl

/-- **A reset is a power-on with the memories kept.** Whatever a machine was doing when it is reset, it shows the same as
a machine of the same chip and program that is built anew and finds its memories: at once, and in every use. Nor does it
matter what values, if any, the reset has left on wires that do not count. -/
theorem Reachable.reset_observe (h : Reachable chip program m) :
    ∃ fresh, Machine.build chip program = .ok fresh ∧
      m.reset.snapshot = { fresh with memories := m.memories : Machine }.snapshot ∧
      m.reset.summary = fresh.summary ∧
      (∀ ops, m.reset.observe ops = { fresh with memories := m.memories : Machine }.observe ops) ∧
      ∀ other : Machine, other.Alike m.reset → ∀ ops, other.observe ops = m.reset.observe ops := by
  have hformed := h.formed
  have halike := hformed.reset_alike
  refine ⟨powerOn chip program, ?_, halike.snapshot, halike.summary, halike.observe, ?_⟩
  · rw [Machine.build, Chip.flaw?_eq_none_iff.2 hformed.valid]
  · intro other hother ops
    exact hother.observe ops

/-- A machine that is reset in the middle of a host read, while a row waits to land. -/
def interrupted : Machine :=
  let chip : Chip := { size := 4, padRows := 2, accRows := 1, hostRows := 2, tiles := 1 }
  (powerOn chip ⟨[.readHost 0 0 2, .halt]⟩).performAll [.poke (.host 0 [1, 2, 3, 4]), .tick, .tick]

theorem Reachable.reset_observe_interrupted : Reachable interrupted.chip interrupted.program interrupted ∧
    interrupted.pipeline.hostLink.response.valid = true ∧
    interrupted.reset.pipeline.hostLink.response.value.row = [1, 2, 3, 4] ∧
    ∀ ops, interrupted.reset.observe ops =
      (powerOnWith interrupted.chip interrupted.program interrupted.memories).observe ops := by
  have hreach : Reachable interrupted.chip interrupted.program interrupted := (Reachable.build rfl).performAll _
  refine ⟨hreach, by decide +kernel, by decide +kernel, ?_⟩
  obtain ⟨fresh, hfresh, -, -, hobserve, -⟩ := hreach.reset_observe
  obtain ⟨-, rfl⟩ := of_build hfresh
  exact hobserve

end Machine

end Systolic
