import Systolic.Proofs.Flow.Path
import Systolic.Proofs.Transfer.Link

/-!
# Programs of transfers

A program that only moves rows between the host and the scratchpad needs no `SYNC`: as long as the spans of its
instructions fit their counter, it leaves the two memories as its instructions do one after the other
(`Machine.transfers_in_order`). While it runs only the host link is in use
(`Machine.Moving`), and what the memories come to once the link has finished (`Machine.pending`) changes with a dispatch
only, by just the instruction that is dispatched (`Machine.Moving.dispatch`).
-/

namespace Systolic

/-- An instruction that moves rows between the host and the scratchpad, or does nothing. -/
def Opcode.transfers : Opcode → Bool
  | .readHost | .writeHost | .nop | .sync => true
  | .readWeights | .multiply | .activate | .halt => false

theorem Sequencer.takes_of_command? {chip : Chip} {pad : RowStore} {pc : UInt64} {i : Instruction} {c : Command}
    (hi : i.opcode.transfers = true) (hc : command? chip pad pc i = some c) : HostLink.takes c = true := by
  have hfor := of_command? hc
  cases c with
  | readHost | writeHost | placeJump => rfl
  | readWeights | multiply | activate =>
    rw [hfor.1] at hi
    cases hi

section Fetch

variable {body : List Instruction} {stop : Instruction} (hlen : body.length < 2 ^ 64)
include hlen

theorem Program.fetch_body {k : Nat} (hk : k < body.length) : fetch ⟨body ++ [stop]⟩ (.ofNat k) = body[k] := by
  rw [fetch, UInt64.toNat_ofNat', Nat.mod_eq_of_lt (by omega), List.getD_eq_getElem?_getD,
    List.getElem?_append_left hk, List.getElem?_eq_getElem hk, Option.getD_some]

theorem Program.fetch_stop : fetch ⟨body ++ [stop]⟩ (.ofNat body.length) = stop := by
  rw [fetch, UInt64.toNat_ofNat', Nat.mod_eq_of_lt hlen, List.getD_eq_getElem?_getD, List.getElem?_concat_length,
    Option.getD_some]

end Fetch

namespace Machine

variable {m : Machine}

/-! ## Runs that halt -/

/-- A run halts with these memories if it has cycles enough. -/
def HaltsWith (m : Machine) (final : Stores) : Prop :=
  ∃ bound, ∀ limit, ∀ budget ≥ bound,
    (∃ summary, (runFor limit budget m).2 = .ok summary) ∧ (runFor limit budget m).1.memories.stores = final

theorem haltsWith_of_halted (hh : m.halted = true) : m.HaltsWith m.memories.stores := by
  refine ⟨0, fun limit budget _ => ?_⟩
  rw [runFor_of_halted hh]
  exact ⟨⟨_, rfl⟩, rfl⟩

theorem HaltsWith.step {final : Stores} (hh : m.halted = false) (hz : m.step.2.hazards = [])
    (h : m.step.1.HaltsWith final) : m.HaltsWith final := by
  obtain ⟨bound, hbound⟩ := h
  refine ⟨bound + 1, fun limit budget hbudget => ?_⟩
  obtain ⟨n, rfl⟩ : ∃ n, budget = n + 1 := ⟨budget - 1, by omega⟩
  rw [runFor_of_quiet hh hz]
  exact hbound limit n (by omega)

/-! ## While only the link is in use -/

/-- What the memories come to once the link has finished. -/
def pending (m : Machine) : Stores := m.pipeline.hostLink.finish m.chip m.issue m.memories.stores

/-- Instruction `k` of a program of transfers is the next one, and only the host link is in use. -/
structure Moving (body : List Instruction) (stop : Instruction) (k : Nat) (m : Machine) : Prop where
  program : m.program = ⟨body ++ [stop]⟩
  fits : m.program.SpansFit m.chip
  halted : m.halted = false
  pc : m.pc = .ofNat k
  le : k ≤ body.length
  covered : m.pipeline.Covered m.chip
  matrix : m.busy.matrix = 0
  activate : m.busy.activate = 0
  weights : m.busy.weights = 0
  issue : ∀ c, m.issue = some c → HostLink.takes c = true
  single : m.pipeline.hostLink.Single m.issue

/-- A command finds the link still. -/
theorem still_of_issue (h : m.pipeline.Covered m.chip) {c : Command} (hc : m.issue = some c)
    (ht : HostLink.takes c = true) : m.pipeline.hostLink.Still := by
  have hidle := h.idle_of_issue hc
  cases c <;> first | exact hidle | cases ht

namespace Moving

variable {body : List Instruction} {stop : Instruction} {k : Nat}

/-- Power-on, with any memories. -/
theorem start {chip : Chip} (hfit : Program.SpansFit chip ⟨body ++ [stop]⟩) (memories : Memories) :
    Moving body stop 0 { powerOn chip ⟨body ++ [stop]⟩ with memories } where
  program := rfl
  fits := hfit
  halted := rfl
  pc := rfl
  le := Nat.zero_le _
  covered := Pipeline.covered_idle chip
  matrix := rfl
  activate := rfl
  weights := rfl
  issue := nofun
  single := ⟨nofun, nofun⟩

section

variable (h : m.Moving body stop k)
include h

theorem hazards : m.step.2.hazards = [] := hazards_of_idle h.covered h.matrix h.weights

/-- What the link moves is all that a cycle does to the memories. -/
theorem stores_step : m.step.1.memories.stores = m.pipeline.hostLink.moved m.chip m.issue m.memories.stores := by
  rw [Memories.stores, pad_step, activated_of_idle h.covered.toCounted h.activate]
  rfl

/-- Before the next command, what the memories come to stays as it is. -/
theorem finish_step : m.step.1.pipeline.hostLink.finish m.chip none m.step.1.memories.stores = m.pending := by
  rw [h.stores_step, hostLink_step]
  exact HostLink.finish_step h.single m.memories.stores

/-- With the counter of the link at zero nothing is left to do, and a cycle moves nothing. -/
theorem pending_of_idle (hb : m.busy.host = 0) : m.pending = m.memories.stores ∧
    m.step.1.pipeline.hostLink.Still ∧ m.step.1.memories.stores = m.memories.stores := by
  have hstill : m.pipeline.hostLink.Still := h.covered.idle (k := .host) hb
  have hpending : m.pending = m.memories.stores := by
    refine hstill.finish_of_quiet (fun c hc => ?_) _
    rw [← Bool.not_eq_true]
    intro ht
    obtain ⟨a, rfl, -⟩ := h.covered.activate_of_issue hc (by cases c <;> first | exact hb | cases ht)
    cases ht
  have hnext : m.step.1.pipeline.hostLink.Still := by
    have hwithin := HostLink.Within.step h.covered.host m.chip m.memories.pad m.memories.host
    rw [show m.pipeline.sequencer.busy.host = 0 from hb] at hwithin
    rw [hostLink_step]
    exact hwithin.idle
  refine ⟨hpending, hnext, ?_⟩
  have hsame : m.step.1.pipeline.hostLink.finish m.chip none m.step.1.memories.stores = m.step.1.memories.stores := by
    refine hnext.finish_of_quiet (fun c hc => ?_) _
    cases hc
  rw [← hsame, h.finish_step, hpending]

/-- One cycle that issues nothing but a transfer. -/
theorem next {l : Nat} (hhalted : m.step.1.halted = false) (hpc : m.step.1.pc = .ofNat l) (hl : l ≤ body.length)
    (hissue : ∀ c, m.step.1.issue = some c → HostLink.takes c = true) : m.step.1.Moving body stop l := by
  have hcov := covered_step h.covered fun _ => fits_of_dispatched h.fits
  obtain ⟨hmatrix, hweights, hactivate⟩ : m.step.1.issue.bind (Sequencer.matrixSet m.chip) = none ∧
      m.step.1.issue.bind (Sequencer.weightsSet m.chip) = none ∧ m.step.1.issue.bind (·.activation?) = none := by
    cases hi : m.step.1.issue with
    | none => exact ⟨rfl, rfl, rfl⟩
    | some c =>
      have ht := hissue c hi
      cases c <;> first | exact ⟨rfl, rfl, rfl⟩ | cases ht
  refine ⟨h.program, h.fits, hhalted, hpc, hl, hcov, UInt64.toNat_inj.1 ?_, UInt64.toNat_inj.1 ?_, UInt64.toNat_inj.1 ?_,
    hissue, ⟨?_, fun c hc ht => still_of_issue hcov hc ht⟩⟩
  · have hcount : m.step.1.busy.matrix.toNat = ((m.step.1.issue.bind (Sequencer.matrixSet m.chip)).map
        (· % 2 ^ 64)).getD (m.busy.matrix.toNat - 1) := (Sequencer.counts_matrix m.chip).step
    rw [hcount, hmatrix, h.matrix]
    rfl
  · have hcount : m.step.1.busy.activate.toNat = ((m.step.1.issue.bind (·.activation?)).map
        (·.length.toNat)).getD (if m.activated.resolved then 0 else m.busy.activate.toNat - 1) :=
      Sequencer.activate_step
    rw [hcount, hactivate, h.activate, activated_of_idle h.covered.toCounted h.activate]
    rfl
  · have hcount : m.step.1.busy.weights.toNat = ((m.step.1.issue.bind (Sequencer.weightsSet m.chip)).map
        (· % 2 ^ 64)).getD (m.busy.weights.toNat - 1) := (Sequencer.counts_weights m.chip).step
    rw [hcount, hweights, h.weights]
    rfl
  · rw [hostLink_step]
    exact h.single.writing_step _ _

/-- A cycle without a dispatch. -/
theorem wait (hnone : m.step.2.dispatched = none) : m.step.1.Moving body stop k ∧ m.step.1.pending = m.pending := by
  have hd := hnone
  rw [dispatched_step] at hd
  have hseq := (Sequencer.step_of_none hd).1
  have hact := activated_of_idle h.covered.toCounted h.activate
  have hissue : m.step.1.issue = none := by
    rw [Machine.issue, sequencer_step, hseq]
    rfl
  refine ⟨h.next ?_ ?_ h.le fun c hc => ?_, ?_⟩
  · rw [Machine.halted, sequencer_step, hseq]
    exact h.halted
  · rw [Machine.pc, sequencer_step, hseq, sees, hact]
    exact h.pc
  · rw [hissue] at hc
    cases hc
  · rw [pending, hissue]
    exact h.finish_step

theorem of_dispatched {i : Instruction} (hi : m.step.2.dispatched = some i) :
    i = Program.fetch ⟨body ++ [stop]⟩ (.ofNat k) := by
  rw [dispatched_step] at hi
  rw [(Sequencer.of_dispatched hi).2.1, show m.sees.program = ⟨body ++ [stop]⟩ from h.program,
    show m.pipeline.sequencer.pc = .ofNat k from h.pc]

/-- An instruction whose command is issued is added to what the memories come to. -/
theorem pending_of_issue {i : Instruction} (hready : m.pipeline.sequencer.ready i = true)
    (hmoves : i.opcode.transfers = true)
    (hissue : m.step.1.issue = Sequencer.command? m.chip m.memories.pad m.pc i) :
    m.step.1.pending = m.pending.perform m.chip i := by
  cases hop : i.opcode with
  | nop | sync =>
    have hnone : m.step.1.issue = none := by
      rw [hissue, Sequencer.command?, hop]
    rw [pending, hnone, Stores.perform, hop]
    exact h.finish_step
  | readHost | writeHost =>
    have hb : m.busy.host = 0 := by
      unfold Sequencer.ready at hready
      rw [hop, Bool.and_eq_true, beq_iff_eq, beq_iff_eq] at hready
      exact hready.2
    -- the pointer is read in the cycle of the dispatch, which leaves the memories as they are
    obtain ⟨hpending, hstill, hstores⟩ := h.pending_of_idle hb
    rw [hpending, pending, hissue, hstores]
    exact hstill.finish_command (by simp [hop]) m.pc m.memories.stores
  | readWeights | multiply | activate | halt =>
    rw [hop] at hmoves
    cases hmoves

/-- **A dispatch adds its instruction** to what the memories come to. -/
theorem dispatch (hlen : body.length < 2 ^ 64) (hk : k < body.length) (hmoves : body[k].opcode.transfers = true)
    (hsome : m.step.2.dispatched.isSome = true) :
    m.step.1.Moving body stop (k + 1) ∧ m.step.1.pending = m.pending.perform m.chip body[k] := by
  obtain ⟨i, hi⟩ := Option.isSome_iff_exists.1 hsome
  obtain rfl : i = body[k] := (h.of_dispatched hi).trans (Program.fetch_body hlen hk)
  rw [dispatched_step] at hi
  obtain ⟨-, -, hready, hseq⟩ := Sequencer.of_dispatched hi
  have hgoes : body[k].opcode ≠ .halt := by
    intro hop
    rw [hop] at hmoves
    cases hmoves
  have hissue : m.step.1.issue = Sequencer.command? m.chip m.memories.pad m.pc body[k] := by
    rw [Machine.issue, sequencer_step, hseq]
    rfl
  refine ⟨h.next ?_ ?_ hk fun c hc => ?_, ?_⟩
  · rw [Machine.halted, sequencer_step, hseq]
    exact decide_eq_false hgoes
  · rw [Machine.pc, sequencer_step, hseq, sees, activated_of_idle h.covered.toCounted h.activate, Option.getD_none,
      if_neg hgoes, show m.pipeline.sequencer.pc = .ofNat k from h.pc, UInt64.ofNat_add]
    rfl
  · rw [hissue] at hc
    exact Sequencer.takes_of_command? hmoves hc
  · exact h.pending_of_issue hready hmoves hissue

/-- **The halt at the end** waits for the link. -/
theorem halt (hlen : body.length < 2 ^ 64) (hk : k = body.length) (hstop : stop.opcode = .halt)
    (hsome : m.step.2.dispatched.isSome = true) : m.step.1.halted = true ∧ m.step.1.memories.stores = m.pending := by
  obtain ⟨i, hi⟩ := Option.isSome_iff_exists.1 hsome
  obtain rfl : i = stop := by
    rw [h.of_dispatched hi, hk]
    exact Program.fetch_stop hlen
  constructor
  · have hd := hi
    rw [dispatched_step] at hd
    rw [Machine.halted, sequencer_step, (Sequencer.of_dispatched hd).2.2.2]
    exact decide_eq_true hstop
  · have hb := busy_of_dispatched hi (Or.inr hstop)
    obtain ⟨hpending, -, hstores⟩ := h.pending_of_idle (by rw [hb])
    rw [hstores, hpending]

/-- A machine that waits comes to a dispatch. -/
theorem haltsWith_of_dispatched {final : Stores} (hd : ∀ m' : Machine, m'.Moving body stop k → m'.chip = m.chip →
      m'.pending = m.pending → m'.step.2.dispatched.isSome = true → m'.HaltsWith final) : m.HaltsWith final := by
  obtain ⟨n, -, hn⟩ := dispatched_after h.halted
  induction n generalizing m with
  | zero => exact hd m h rfl rfl hn
  | succ n ih =>
    cases hi : m.step.2.dispatched with
    | some i => exact hd m h rfl rfl (by rw [hi]; rfl)
    | none =>
      obtain ⟨hmoving, hpending⟩ := h.wait hi
      rw [← after_step] at hn
      refine .step h.halted h.hazards (ih hmoving (fun m' h' hchip hp => ?_) hn)
      exact hd m' h' hchip (hp.trans hpending)

/-- From instruction `k` on, a run carries out the instructions that are left. -/
theorem haltsWith (hbody : ∀ i ∈ body, i.opcode.transfers = true) (hlen : body.length < 2 ^ 64)
    (hstop : stop.opcode = .halt) : m.HaltsWith ((body.drop k).foldl (Stores.perform m.chip) m.pending) := by
  induction hleft : body.length - k generalizing m k with
  | zero =>
    have hk : k = body.length := by have := h.le; omega
    refine h.haltsWith_of_dispatched fun m' h' _ hpending hsome => ?_
    obtain ⟨hhalted, hstores⟩ := h'.halt hlen hk hstop hsome
    have hend := haltsWith_of_halted hhalted
    rw [hstores, hpending] at hend
    rw [hk, List.drop_length]
    exact .step h'.halted h'.hazards hend
  | succ n ih =>
    have hk : k < body.length := by omega
    refine h.haltsWith_of_dispatched fun m' h' hchip hpending hsome => ?_
    obtain ⟨hmoving, hperform⟩ := h'.dispatch hlen hk (hbody _ (List.getElem_mem hk)) hsome
    have hrest := ih hmoving (by omega)
    rw [hperform, hpending, show m'.step.1.chip = m.chip from hchip, hchip] at hrest
    rw [List.drop_eq_getElem_cons hk, List.foldl_cons]
    exact .step h'.halted h'.hazards hrest

end

end Moving

/-- **Transfers in order.** A program of transfers that ends in a `HLT` halts, without any `SYNC`, with the two memories
that its instructions leave one after the other, whatever their addresses and for every `length + 1 < 2 ^ 64`. If it ends
in a read from the host and a write of the same scratchpad rows back to it, which fit in both memories and do not pass
the last address, the rows arrive as they were, even where the ranges overlap. -/
theorem transfers_in_order (chip : Chip) {body : List Instruction} (hbody : ∀ i ∈ body, i.opcode.transfers = true)
    (hlen : body.length < 2 ^ 64) (hfit : ∀ i ∈ body, i.SpanFits chip) {stop : Instruction}
    (hstop : stop.opcode = .halt) (memories : Memories) :
    ∃ bound, ∀ limit ≥ bound, ∃ m summary,
      Machine.run { powerOn chip ⟨body ++ [stop]⟩ with memories } limit = (m, .ok summary) ∧
      m.memories.stores = body.foldl (Stores.perform chip) memories.stores ∧
      ∀ before h u h' len, body = before ++ [.readHost h u len, .writeHost h' u len] → memories.stores.Fits chip →
        len.toNat ≤ chip.padRows → len.toNat ≤ chip.hostRows → u.toNat + len.toNat ≤ 2 ^ 64 →
        h'.toNat + len.toNat ≤ 2 ^ 64 → ∀ i < len.toNat, m.memories.host.read (h' + UInt64.ofNat i) =
          (before.foldl (Stores.perform chip) memories.stores).host.read (h + UInt64.ofNat i) := by
  have hprogram : Program.SpansFit chip ⟨body ++ [stop]⟩ := by
    intro i hi
    rcases List.mem_append.1 hi with hi | hi
    · exact hfit i hi
    · rw [List.mem_singleton.1 hi]
      exact stop.fits_of_halt chip hstop
  have hstart : Moving body stop 0 { powerOn chip ⟨body ++ [stop]⟩ with memories } := .start hprogram memories
  obtain ⟨bound, hbound⟩ := hstart.haltsWith hbody hlen hstop
  rw [(hstart.pending_of_idle rfl).1] at hbound
  refine ⟨bound, fun limit hlimit => ?_⟩
  obtain ⟨⟨summary, hsummary⟩, hstores⟩ := hbound limit limit hlimit
  refine ⟨_, summary, Prod.ext rfl hsummary, hstores, ?_⟩
  intro before h u h' len hends hfits hpad hhost hu hh i hi
  change (Memories.stores _).host.read _ = _
  rw [run, hstores, List.drop_zero, hends, List.foldl_append]
  exact (hfits.foldl_perform before).read_round_trip hpad hhost hu hh hi

/-- A pointer row, a row by way of it to the scratchpad and back to the host, a jump row, and two rows across the last
address. -/
def detour : List Instruction :=
  [.readHost 0 0 1, .readHostVia 3 0, .writeHostVia 4 0, .placeJump 7 3, .readHost 18446744073709551615 3 2]

/-- A host memory to go with it. -/
def detourStart : Memories :=
  { pad := .blank 4 4
    host := ⟨4, #[[2, 0, 0, 0], [10, 11, 12, 13], [20, 21, 22, 23], [30, 31, 32, 33], [40, 41, 42, 43]]⟩
    acc := .blank 4 1
    weights := .blank 1 4 }

theorem transfers_in_order_detour :
    (∀ i ∈ detour ++ [.readHost 0 1 3, .writeHost 1 1 3], i.opcode.transfers = true) ∧
    (∀ i ∈ detour ++ [.readHost 0 1 3, .writeHost 1 1 3], i.SpanFits { size := 4, padRows := 4, hostRows := 5 }) ∧
    detourStart.stores.Fits { size := 4, padRows := 4, hostRows := 5 } ∧
    ∃ bound, ∀ limit ≥ bound, ∃ m summary,
      Machine.run { powerOn { size := 4, padRows := 4, hostRows := 5 }
        ⟨detour ++ [.readHost 0 1 3, .writeHost 1 1 3] ++ [.halt]⟩ with memories := detourStart } limit =
          (m, .ok summary) ∧
      m.memories.stores = ⟨⟨4, #[[2, 0, 0, 0], [2, 0, 0, 0], [10, 11, 12, 13], [20, 21, 22, 23]]⟩,
        ⟨4, #[[2, 0, 0, 0], [2, 0, 0, 0], [10, 11, 12, 13], [20, 21, 22, 23], [30, 31, 32, 33]]⟩⟩ ∧
      m.memories.host.read 3 = detourStart.host.read 2 := by
  have hbody : ∀ i ∈ detour ++ [.readHost 0 1 3, .writeHost 1 1 3], i.opcode.transfers = true := by decide
  have hfit : ∀ i ∈ detour ++ [.readHost 0 1 3, .writeHost 1 1 3],
      i.SpanFits { size := 4, padRows := 4, hostRows := 5 } := by decide +kernel
  have hfits : detourStart.stores.Fits { size := 4, padRows := 4, hostRows := 5 } :=
    ⟨⟨by decide, by decide, by decide⟩, ⟨by decide, by decide, by decide⟩⟩
  refine ⟨hbody, hfit, hfits, ?_⟩
  obtain ⟨bound, hbound⟩ := transfers_in_order { size := 4, padRows := 4, hostRows := 5 } hbody (by decide)
    hfit (rfl : Instruction.halt.opcode = .halt) detourStart
  refine ⟨bound, fun limit hlimit => ?_⟩
  obtain ⟨m, summary, hrun, hstores, hback⟩ := hbound limit hlimit
  refine ⟨m, summary, hrun, hstores.trans (by decide +kernel), ?_⟩
  have hrow := hback detour 0 1 1 3 rfl hfits (by decide) (by decide) (by decide) (by decide) 2 (by decide)
  exact hrow.trans (by decide +kernel)

end Machine

end Systolic
