import Systolic.Proofs.Sequential.Simulation

/-!
# Weight reads behind a multiplication

The next tile can be fetched while a multiplication is still running: a weight read that is dispatched right behind a
multiplication, with a `SYNC` or a `HLT` behind both, leads from an idle cycle to an idle cycle (`Overlaps.settled`), and
there the course shows what the reference comes to with one instruction after the other (`Matches.overlap`).
-/

namespace Systolic.Course

/-- A multiplication is issued in cycle `d + 1`, to idle units, and a weight read in the cycle after; behind them stands
an instruction that waits. -/
structure Overlaps (C : Course) (d : Nat) (m : Multiplication) (a : UInt64) : Prop where
  multiply : C.issue (d + 1) = some (.multiply m)
  read : C.issue (d + 2) = some (.readWeights a)
  fits : (Command.multiply m).SpanFits C.chip
  units : C.UnitsIdle (d + 1)
  halted : (C.sequencer (d + 2)).halted = false
  busy : (C.sequencer (d + 2)).busy =
    { matrix := tickDown (C.chip.matrixCycles m.length), weights := C.chip.weightCycles }
  waits : (C.program.fetch (C.sequencer (d + 2)).pc).opcode.waits = true

variable {C : Course}

section Overlaps

variable {d : Nat} {m : Multiplication} {a : UInt64} (h : C.Overlaps d m a)
include h

/-- Until the counters have run down, the two commands are the only ones. -/
theorem Overlaps.issued {n : Nat} (hno : ∀ j, 0 < j → j ≤ n → C.issue (d + 2 + j) = none) {j : Nat} (hj : j ≤ n + 1)
    {c : Command} (hc : C.issue (d + 1 + j) = some c) : c = .multiply m ∧ j = 0 ∨ c = .readWeights a := by
  rcases j with _ | _ | j
  · rw [Nat.add_zero, h.multiply] at hc
    exact Or.inl ⟨(Option.some.inj hc).symm, rfl⟩
  · rw [h.read] at hc
    exact Or.inr (Option.some.inj hc).symm
  · rw [show d + 1 + (j + 1 + 1) = d + 2 + (j + 1) by omega, hno (j + 1) (Nat.succ_pos j) (by omega)] at hc
    cases hc

/-- The activation unit has nothing to do. -/
theorem Overlaps.acts {n : Nat} (hno : ∀ j, 0 < j → j ≤ n → C.issue (d + 2 + j) = none) :
    C.actJob (d + 1 + (n + 2)) = none ∧ ∀ j < n + 2, C.act (d + 1 + j) = {} := by
  refine act_idle h.units.act fun j hj b hb => ?_
  rcases h.issued hno (Nat.le_of_lt_succ hj) hb with ⟨hc, -⟩ | hc <;> cases hc

/-- The host link has nothing to do. -/
theorem Overlaps.links {n : Nat} (hno : ∀ j, 0 < j → j ≤ n → C.issue (d + 2 + j) = none) :
    C.LinkIdle (d + 1 + (n + 2)) ∧ ∀ j < n + 2, (C.transferred (d + 1 + j)).padWrite = none ∧
      (C.transferred (d + 1 + j)).hostWrite = none := by
  refine link_idle h.units.link fun j hj c hc => ?_
  rcases h.issued hno (Nat.le_of_lt_succ hj) hc with ⟨rfl, -⟩ | rfl <;> rfl

/-- The sequencer waits for the longer of the two commands. -/
theorem Overlaps.held : C.Held (d + 2) (C.sequencer (d + 2)).busy.longest := by
  refine Course.held h.waits h.halted (fun k _ hno => ?_) _ (Nat.le_refl _)
  have hact := (h.acts hno).2 (k + 1) (by omega)
  rw [show d + 1 + (k + 1) = d + 2 + k by omega] at hact
  rw [hact]
  exact ⟨rfl, rfl⟩

/-- **Overlapping commands** settle when both are over, and leave the accumulators as the multiplication alone does. -/
theorem Overlaps.settled (hclosed : C.Closed) (hw : C.ReadsFit) {store : TileStore} (hfix : C.supply.Fixed store)
    (hq : C.QuietBefore (d + 2 + (C.sequencer (d + 2)).busy.longest)) :
    C.Settled (d + 2) (d + 2 + (C.sequencer (d + 2)).busy.longest) (C.sequencer (d + 2)).pc (C.memories (d + 1)).pad
      (C.memories (d + 1)).host (Sequential.multiplyRows C.chip (C.memories (d + 1)).pad
        (Tile.inUse C.chip.size (C.supply.tile store) (C.switchCount (d + 1))) m (C.memories (d + 1)).acc
        m.length.toNat) := by
  have hheld := h.held
  obtain ⟨n, hn⟩ : ∃ n, (C.sequencer (d + 2)).busy.longest = n := ⟨_, rfl⟩
  have hlong : 2 * C.chip.size + m.length.toNat < n := by
    rw [← hn, h.busy]
    simp only [Busy.longest, toNat_tickDown, Chip.toNat_matrixCycles h.fits, Chip.matrixSpan, drainCycles]
    omega
  rw [hn] at hheld hq ⊢
  obtain ⟨k, rfl⟩ : ∃ k, n = k + 1 := ⟨n - 1, by omega⟩
  have hno := fun j h0 hj => hheld.issue j h0 (Nat.le_succ_of_le hj)
  have ht : d + 1 + (k + 2) = d + 2 + (k + 1) := by omega
  obtain ⟨hact, hacts⟩ := h.acts (n := k) hno
  obtain ⟨hlink, hlinks⟩ := h.links (n := k) hno
  have hmultiply : ∀ j, 0 < j → j < k + 2 → C.multiplication? (d + 1 + j) = none := by
    intro j h0 hj
    unfold Course.multiplication?
    cases hc : C.issue (d + 1 + j) with
    | none => rfl
    | some c =>
      rcases h.issued hno (Nat.le_of_lt_succ hj) hc with ⟨-, rfl⟩ | rfl
      · exact absurd h0 (Nat.lt_irrefl 0)
      · rfl
  obtain ⟨hrows, hlast⟩ := rows_after h.multiply h.fits (n := k + 2) (by omega) hmultiply
  have hpad : ∀ j ≤ k + 2, (C.memories (d + 1 + j)).pad = (C.memories (d + 1)).pad := fun j hj =>
    pad_eq hclosed (fun i hi => by rw [hacts i (Nat.lt_of_lt_of_le hi hj)])
      fun i hi => (hlinks i (Nat.lt_of_lt_of_le hi hj)).1
  have hhost := host_eq hclosed fun j hj => (hlinks j hj).2
  have hacc := acc_multiply hw h.multiply h.fits (fun j hj => hpad j (by omega)) h.units.drained hfix (n := k + 2)
    (by omega) (ht ▸ hq) hlast
  have hdrained := drained_of_rows (s := d + 1 + m.length.toNat) (by omega) hlast
  have hpad' := hpad (k + 2) (Nat.le_refl _)
  rw [ht] at hact hlink hrows hdrained hpad' hhost hacc
  refine ⟨Nat.le_add_right _ _, ⟨hheld.halted, Busy.eq_idle ?_, fun c hc => ?_, hact, hrows, hlink, hdrained⟩,
    fun u hu hut => ?_, hheld.pc, hpad', hhost, hacc⟩
  · rw [hheld.longest, hn, Nat.sub_self]
  · rw [hheld.issue (k + 1) (Nat.succ_pos k) (Nat.le_refl _)] at hc
    cases hc
  · have hquiet := hheld.dispatched (u - (d + 2)) (by omega)
    rwa [Nat.add_sub_cancel' hu] at hquiet

end Overlaps

/-! ## Against the reference -/

section Matches

variable {t : Nat} {s : Sequential} (h : C.Matches t s) (hclosed : C.Closed) {m : Multiplication}
  (hc : C.command? s = some (.multiply m)) {a : UInt64} (hread : (C.program.fetch (s.pc + 1)).tile? = some a)
  (hwait : (C.program.fetch (s.pc + 1 + 1)).opcode.waits = true)
include h hclosed hc hread hwait

/-- A weight read behind a multiplication is dispatched at once. -/
theorem Matches.overlaps : C.Overlaps t m a ∧ C.dispatched (t + 1) = some (C.program.fetch (s.pc + 1)) ∧
    (C.sequencer (t + 2)).pc = s.pc + 1 + 1 := by
  have hworks := works_of_command? hc
  have hhalt : (C.program.fetch s.pc).opcode ≠ .halt := fun ho => by rw [ho] at hworks; cases hworks
  obtain ⟨hpc, hhalted, hbusy⟩ := h.sequencer_succ
  rw [if_neg hhalt] at hpc
  rw [decide_eq_false hhalt] at hhalted
  rw [hc] at hbusy
  have hunits := (h.memories_succ hclosed).1
  have hissue := h.issue_succ.trans hc
  have hop : (C.program.fetch (s.pc + 1)).opcode = .readWeights := by
    by_contra hne
    rw [Instruction.tile?, if_neg hne] at hread
    cases hread
  have hdispatch : C.dispatched (t + 1) = some (C.program.fetch (s.pc + 1)) := by
    have hready : (C.sequencer (t + 1)).ready (C.program.fetch (C.sequencer (t + 1)).pc) = true := by
      unfold Sequencer.ready
      rw [hbusy, hpc, hop]
      rfl
    rw [dispatched_eq, ← hpc]
    exact Sequencer.dispatched_of_ready hhalted hready
  have hact : C.act (t + 1) = {} := by
    have hacts := (act_idle (n := 1) hunits.act fun j hj b hb => by
      obtain rfl : j = 0 := by omega
      rw [Nat.add_zero, hissue] at hb
      cases hb).2
    exact hacts 0 Nat.one_pos
  have hstep := (Sequencer.of_dispatched ((dispatched_eq (t + 1)).symm.trans hdispatch)).2.2.2
  have hsees : C.sees (t + 1) = { program := C.program, pad := (C.memories (t + 1)).pad } := by rw [sees, hact]
  have hcommand : Sequencer.command? C.chip (C.memories (t + 1)).pad (C.sequencer (t + 1)).pc
      (C.program.fetch (s.pc + 1)) = some (.readWeights a) := by
    rw [Instruction.tile?, if_pos hop] at hread
    simp only [Sequencer.command?, hop, Option.some.inj hread]
  rw [← Course.sequencer_succ, hsees] at hstep
  have hpc' : (C.sequencer (t + 2)).pc = s.pc + 1 + 1 := by
    rw [hstep, ← hpc]
    exact if_neg (by rw [hpc, hop]; decide)
  refine ⟨⟨hissue, ?_, Sequencer.fits_command? hc (h.fits.fetch _), hunits, ?_, ?_, ?_⟩, hdispatch, hpc'⟩
  · rw [issue_of_dispatched hdispatch, hcommand]
  · rw [hstep]
    simp [Sequencer.dispatch, hop]
  · rw [hstep]
    simp only [Sequencer.dispatch, hcommand, Option.map_some, Option.getD_some, Sequencer.countDown, hbusy]
    rfl
  · rw [hpc']
    exact hwait

/-- **Overlap.** A multiplication that switches and a weight read right behind it come to what they come to one after the
other in the reference. -/
theorem Matches.overlap (hsw : (m.switch && m.length != 0) = true) {tile : Tile} {rest : List Tile}
    (hw : s.waiting = tile :: rest) (hroom : rest.length ≤ 3) :
    ∃ u, C.Matches u { s.multiply C.chip m tile rest with
      pc := s.pc + 1 + 1
      waiting := rest ++ [.ofRow C.chip.size ((C.memories 0).weights.read a)] } := by
  obtain ⟨ho, hnext, hpc⟩ := h.overlaps hclosed hc hread hwait
  have hr : (C.dispatched t).bind (·.tile?) = none := by rw [h.tile?_eq, hc]; rfl
  have hany : (C.dispatched t).any (·.switches) = true := by
    rw [h.switches_eq, hc]
    exact hsw
  have hr' : (C.dispatched (t + 1)).bind (·.tile?) = some a := by
    rw [hnext]
    exact hread
  have hany' : (C.dispatched (t + 1)).any (·.switches) = false := by
    rw [hnext, Option.any_some, ← Bool.not_eq_true]
    intro hs
    rw [Instruction.tile?, if_neg (by rw [opcode_of_switches hs]; decide)] at hread
    cases hread
  have hlen := length_waiting (C := C) t
  rw [h.waiting, hw, List.length_cons] at hlen
  have hlt : C.switchCount t < C.readCount t := by omega
  -- the switches before the multiplication have entered; its own tile and those behind it fill four places at most
  have hroom' : C.Room (t + 1) := by
    obtain ⟨y, hy, hyt⟩ := entered_of_idle (matrixFit h.fits t) (by rw [h.idle.busy])
    have hN := C.valid.size
    have hcount := readCount_succ (C := C) t
    rw [hr, Option.isSome_none, Bool.toNat_false] at hcount
    exact ⟨y, by omega, by omega⟩
  have hd : C.Disciplined (t + 1) := by
    refine h.disciplined.succ (fun b hb => ?_) fun _ => onTime_of_idle h.disciplined.fit (by rw [h.idle.busy]) hlt
    rw [hr] at hb
    cases hb
  have hd' : C.Disciplined (t + 2) := by
    refine hd.succ (fun _ _ => hroom') fun hs => ?_
    rw [hany'] at hs
    cases hs
  have hle : C.switchCount (t + 1) ≤ C.readCount (t + 1) := by
    rw [readCount_succ, switchCount_succ, hr, hany]
    exact hlt
  have hle' : C.switchCount (t + 2) ≤ C.readCount (t + 2) := by
    rw [readCount_succ, switchCount_succ (t + 1), hany']
    exact Nat.le_trans hle (Nat.le_add_right _ _)
  have hheld := ho.held
  have hrest : C.Disciplined (t + 2 + (C.sequencer (t + 2)).busy.longest) := hd'.rest fun u hu hut => by
    have hquiet := hheld.dispatched (u - (t + 2)) (by omega)
    rwa [Nat.add_sub_cancel' hu] at hquiet
  have hs := ho.settled hclosed hd.fit (weights_free hclosed.tilesStay) (hrest.quiet.mono (Nat.le_add_right _ 2))
  obtain ⟨-, hpad, hhost, hacc⟩ := h.memories_succ hclosed
  rw [hpc, hpad, hhost, hacc] at hs
  have hm := hs.matches h.fits hd' hle'
  -- the tiles after the switch, and after the read
  have htiles := waiting_of_switch hr hany hlt
  rw [h.waiting, hw] at htiles
  obtain ⟨rfl, rfl⟩ := List.cons.inj htiles
  have hcurrent : C.current (t + 2) = C.current (t + 1) := by
    rw [Course.current, switchCount_succ (t + 1), hany']
    rfl
  rw [hcurrent, waiting_of_read hclosed.tilesStay hr' hany' hle, weights_free hclosed.tilesStay (t + 1)] at hm
  exact ⟨_, hm⟩

end Matches

end Systolic.Course
