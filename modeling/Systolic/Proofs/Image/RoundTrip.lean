import Systolic.Proofs.Image.Load
import Systolic.Proofs.Width.Reachable

/-!
# Memory images, there and back

The dump of a host memory is cut into the rows that it was taken from (`Machine.Reachable.pieces_dumpHost`): its elements
are signed numbers of the data width, for which the bytes of an element are enough. So whatever machine of the same chip
the dump is loaded into has that host memory (`Machine.Reachable.load_dumpHost`), and loading and dumping again changes
nothing. `Machine.Reachable.image_round_trip` is the whole law of images.
-/

namespace Systolic

/-- Signed elements fit into every register that is at least as wide. -/
theorem Row.Signed.wrap_eq {bits width : Nat} {row : Row} (h : row.Signed bits) (hw : bits ≤ width) (h0 : 0 < width)
    (h1 : width ≤ 64) : row.wrap width = row :=
  (List.map_congr_left fun v hv => (h v hv).wrap_eq hw h0 h1).trans (List.map_id row)

namespace Machine

variable {chip : Chip} {program program' : Program} {m fresh : Machine}

/-! ## The dump -/

/-- The host memory holds signed numbers of the data width. -/
theorem Reachable.signed_host (h : Reachable chip program m) : m.memories.host.Signed chip.dataWidth := by
  have hsigned : m.Signed := by
    apply h.invariant
    · exact signed_powerOn chip program
    · exact fun m hm hs => hs.step (hm.chip_eq ▸ hm.valid)
    · exact fun m _ hs => hs.reset
    · exact fun m p hm hs => hs.poke (hm.chip_eq ▸ hm.valid) p
  rw [← h.formed.chip_eq]
  exact hsigned.memories.host

theorem Reachable.dumpHost_eq (h : Reachable chip program m) : m.dumpHost =
    m.memories.host.rows.toList.flatMap (List.flatMap (Image.elementToBytes (Image.elementBytes chip))) := by
  rw [dumpHost, h.formed.chip_eq]

/-- The bytes of one row. -/
theorem Reachable.length_dumpRow (h : Reachable chip program m) :
    ∀ row ∈ m.memories.host.rows.toList,
      (row.flatMap (Image.elementToBytes (Image.elementBytes chip))).length = chip.size * Image.elementBytes chip := by
  intro row hrow
  rw [Bytes.length_flatMap fun v _ => Image.length_elementToBytes _ v,
    h.formed.stores.host.rows row (Array.mem_toList_iff.1 hrow)]

theorem Reachable.length_rows (h : Reachable chip program m) : m.memories.host.rows.toList.length = chip.hostRows :=
  (Array.length_toList).trans h.formed.stores.host.depth_eq

theorem Reachable.length_dumpHost (h : Reachable chip program m) :
    m.dumpHost.length = chip.hostRows * (chip.size * Image.elementBytes chip) := by
  rw [h.dumpHost_eq, Bytes.length_flatMap h.length_dumpRow, h.length_rows]

/-- A register that is at least as wide as the data keeps the rows. -/
theorem Reachable.wrap_rows (h : Reachable chip program m) {width : Nat} (hw : chip.dataWidth ≤ width)
    (h1 : width ≤ 64) : m.memories.host.rows.toList.map (Row.wrap width) = m.memories.host.rows.toList := by
  have hpos : 0 < width := Nat.lt_of_lt_of_le (by decide) (h.formed.valid.dataWidth.1.trans hw)
  refine (List.map_congr_left fun row hrow => ?_).trans (List.map_id _)
  exact (h.signed_host row (Array.mem_toList_iff.1 hrow)).wrap_eq hw hpos h1

/-- The pieces of a dump are the rows of the memory. -/
theorem Reachable.pieces_dumpHost (h : Reachable chip program m) :
    Image.pieces chip chip.size m.dumpHost = m.memories.host.rows.toList := by
  have hvalid := h.formed.valid
  obtain ⟨h0, h8, hw⟩ := hvalid.elementBytes
  have hpos : 0 < chip.size * Image.elementBytes chip := Nat.mul_pos hvalid.size_pos h0
  rw [Image.pieces, h.length_dumpHost, Nat.mul_div_cancel _ hpos, ← h.length_rows, h.dumpHost_eq,
    Bytes.chunks_flatMap h.length_dumpRow, List.map_map]
  exact (List.map_congr_left fun row _ => Image.elements_flatMap h0 h8 row).trans (h.wrap_rows hw (by omega))

/-! ## There and back -/

/-- A dump restores the host memory in every machine of the chip. -/
theorem Reachable.load_dumpHost (h : Reachable chip program m) (h' : Reachable chip program' fresh)
    (hrows : chip.hostRows ≤ 2 ^ 64) :
    ∃ next, fresh.loadHost m.dumpHost = .ok (next, chip.hostRows) ∧ Reachable chip program' next ∧
      next.memories.host = m.memories.host := by
  obtain ⟨next, hload, hnext, hcontents⟩ := h'.load_full .host hrows h.length_dumpHost
  have hsame := h.wrap_rows (Nat.le_refl _) (h.formed.valid.dataWidth.2.trans (by decide))
  have hwidth : next.memories.host.width = m.memories.host.width :=
    hnext.formed.stores.host.width_eq.trans h.formed.stores.host.width_eq.symm
  have harray : next.memories.host.rows = m.memories.host.rows := by
    apply Array.toList_inj.1
    rw [← hsame, ← h.pieces_dumpHost]
    exact hcontents
  refine ⟨next, hload, hnext, ?_⟩
  calc next.memories.host
      = ⟨next.memories.host.width, next.memories.host.rows⟩ := rfl
    _ = ⟨m.memories.host.width, m.memories.host.rows⟩ := by rw [hwidth, harray]

/-- Elements that fill their bytes are dumped as they were loaded. -/
theorem Reachable.dumpHost_of_load (h : Reachable chip program m) (hrows : chip.hostRows ≤ 2 ^ 64)
    (hbytes : 8 ∣ chip.dataWidth) {bytes : List UInt8}
    (hlen : bytes.length = chip.hostRows * ImageKind.host.pieceBytes chip) :
    ∃ next, m.loadHost bytes = .ok (next, chip.hostRows) ∧ next.dumpHost = bytes := by
  have hvalid := h.formed.valid
  have hdvd : chip.size * Image.elementBytes chip ∣ bytes.length := hlen ▸ Nat.dvd_mul_left _ _
  obtain ⟨next, hload, hnext, hcontents⟩ := h.load_full .host hrows hlen
  refine ⟨next, hload, ?_⟩
  have hkept : (Image.pieces chip chip.size bytes).map (Row.wrap chip.dataWidth) = Image.pieces chip chip.size bytes :=
    (List.map_congr_left (Image.wrap_of_mem_pieces hvalid hdvd hbytes)).trans (List.map_id _)
  rw [hnext.dumpHost_eq, ← Image.flatMap_pieces hvalid hdvd, ← hkept]
  exact congrArg _ hcontents

/-- **Memory images go there and back.** An address is a word of 64 bits, so a memory has at most `2 ^ 64` places.

- The dump of the host memory of a reachable machine, loaded into any reachable machine of the chip, be it fresh or not,
  restores that memory.
- An image in whole rows or tiles is loaded: a place to which pieces of it belong has the last of them, every element
  the big-endian number of its bytes cut to the data width, and nothing else changes.
- Any other image is rejected with its length, before the first row is written.
- If elements fill their bytes, an image of as many rows as the host memory has is dumped as it was loaded.
- Whatever image has been loaded, loading its dump and dumping again gives the same dump. -/
theorem Reachable.image_round_trip (h : Reachable chip program m) (hrows : chip.hostRows ≤ 2 ^ 64) :
    (∀ program' fresh, Reachable chip program' fresh →
      ∃ next, fresh.loadHost m.dumpHost = .ok (next, chip.hostRows) ∧ next.memories.host = m.memories.host) ∧
    (∀ kind bytes, kind.pieceBytes chip ∣ bytes.length → bytes.length / kind.pieceBytes chip ≤ 2 ^ 64 →
      ∃ next, m.load kind bytes = .ok (next, bytes.length / kind.pieceBytes chip) ∧ Loaded chip kind bytes m next) ∧
    (∀ kind bytes, ¬ kind.pieceBytes chip ∣ bytes.length →
      m.load kind bytes = .error ⟨kind, bytes.length, kind.pieceBytes chip⟩ ∧
      loadInPlace kind bytes m = .error ⟨kind, bytes.length, kind.pieceBytes chip⟩ m) ∧
    (8 ∣ chip.dataWidth → ∀ bytes, bytes.length = chip.hostRows * ImageKind.host.pieceBytes chip →
      ∃ next, m.loadHost bytes = .ok (next, chip.hostRows) ∧ next.dumpHost = bytes) ∧
    ∀ bytes next count, m.loadHost bytes = .ok (next, count) → ∀ program' fresh, Reachable chip program' fresh →
      ∃ again, fresh.loadHost next.dumpHost = .ok (again, chip.hostRows) ∧ again.dumpHost = next.dumpHost := by
  refine ⟨?_, ?_, ?_, ?_, ?_⟩
  · intro program' fresh h'
    obtain ⟨next, hload, -, hhost⟩ := h.load_dumpHost h' hrows
    exact ⟨next, hload, hhost⟩
  · intro kind bytes hdvd hcount
    exact h.loaded kind hdvd hcount
  · intro kind bytes hragged
    have hload := load_of_ragged kind h.formed.chip_eq hragged
    refine ⟨hload, ?_⟩
    rw [loadInPlace_eq, hload]
  · intro hbytes bytes hlen
    exact h.dumpHost_of_load hrows hbytes hlen
  · intro bytes next count hload program' fresh h'
    have hnext := h.of_load .host hload
    obtain ⟨again, hagain, hreach, hhost⟩ := hnext.load_dumpHost h' hrows
    refine ⟨again, hagain, ?_⟩
    rw [hreach.dumpHost_eq, hnext.dumpHost_eq, hhost]

/-- Elements of twelve bits in two bytes, two host rows and one tile. -/
def twelveBits : Chip :=
  { size := 4, dataWidth := 12, padRows := 2, accRows := 2, hostRows := 2, tiles := 1, burstBytes := 3 }

/-- A row of which one element does not fit. -/
def stocked : Machine := (powerOn twelveBits ⟨[.halt]⟩).poke (.host 1 [-2048, 5, 4095, 7])

/-- One host row more than there is room for; three quarters of a tile. -/
def threeRows : List UInt8 :=
  [0, 1, 0, 2, 0, 3, 0, 4, 7, 255, 8, 0, 127, 255, 0, 0, 255, 255, 248, 0, 24, 1, 0, 9]

theorem Reachable.image_round_trip_wrapped : Reachable twelveBits ⟨[.halt]⟩ stocked ∧
    stocked.dumpHost = [0, 0, 0, 0, 0, 0, 0, 0, 248, 0, 0, 5, 255, 255, 0, 7] ∧
    (∃ next, (powerOn twelveBits ⟨[]⟩).loadHost stocked.dumpHost = .ok (next, 2) ∧
      next.memories.host = stocked.memories.host) ∧
    (∃ next, stocked.load .host threeRows = .ok (next, 3) ∧
      next.memories.host.rows[0]? = some ([-1, -2048, -2047, 9] : Row) ∧
      next.memories.host.rows[1]? = some ([2047, -2048, -1, 0] : Row)) ∧
    loadInPlace .weight threeRows stocked = .error ⟨.weight, 24, 32⟩ stocked := by
  have hreach : Reachable twelveBits ⟨[.halt]⟩ stocked := (Reachable.build rfl).poke _
  have hfresh : Reachable twelveBits ⟨[]⟩ (powerOn twelveBits ⟨[]⟩) := Reachable.build rfl
  obtain ⟨hdump, hload, hreject, -⟩ := hreach.image_round_trip (by decide)
  refine ⟨hreach, by decide +kernel, hdump _ _ hfresh, ?_, (hreject .weight threeRows (by decide)).2⟩
  obtain ⟨next, hnext, hloaded⟩ := hload .host threeRows (by decide) (by decide)
  refine ⟨next, hnext, ?_, ?_⟩
  · exact (hloaded.last 2 (by decide) (by decide)).trans (by decide +kernel)
  · exact (hloaded.last 1 (by decide) (by decide)).trans (by decide +kernel)

end Machine

end Systolic
