import Systolic.Proofs.Mesh.Control
import Systolic.Proofs.Mesh.Skew

/-!
# Weights in the cells

A tile programmed in a window that ends in cycle `t` settles in column `c` in cycle `t + c` (`settles_eq`); a switch
that enters in cycle `t` passes cell `(r, c)` in cycle `t + r + c` (`flips_eq`). The cell is one diagonal of both: without
a hazard its current weight is the one of the tile brought in by the switches that have passed it, and its staged weight
the one of the tile that settled since (`weights`).
-/

namespace Systolic

/-- The tile in use after `k` switches, of tiles `offered` one after the other: none before the first switch. -/
def Tile.inUse (size : Nat) (offered : Nat → Tile) : Nat → Tile
  | 0 => .ofRow size []
  | k + 1 => offered k

theorem Tile.get_inUse_zero (size : Nat) (offered : Nat → Tile) (r c : Nat) : (inUse size offered 0).get r c = 0 := by
  simp only [inUse, ofRow, get, Row.fit, List.getD_eq_getElem?_getD, List.nil_append, List.getElem?_take,
    List.getElem?_replicate]
  split
  · split <;> rfl
  · rfl

/-- A row that carries a switch is pushed. -/
def MatrixRow.switches (row? : Option MatrixRow) : Bool := row?.any (·.switch)

namespace Mesh.Run

variable (R : Run)

/-- What cell `(r, c)` sees on its left in cycle `t`. -/
def seen (r c t : Nat) : Lane := if c = 0 then (R.lanes t).getD r {} else ((R.mesh t).cell r (c - 1)).left

/-- The sum that cell `(r, c)` gets from above in cycle `t`. -/
def above (r c t : Nat) : Word := if r = 0 then 0 else ((R.mesh t).cell (r - 1) c).sum

/-- What is broadcast to column `c` in cycle `t`. -/
def sent (c t : Nat) : Feed := (R.mesh t).broadcast R.chip.size (R.front t) c

/-- The feed that cell `(r, c)` gets from above in cycle `t`. -/
def fed (r c t : Nat) : Feed :=
  if r = 0 then ((R.mesh t).top.getD c ⟨[]⟩).output (R.sent c t) else ((R.mesh t).cell (r - 1) c).feed

/-- The lanes are those of `rows` behind skew lines. -/
def FedBy (rows : Nat → Option MatrixRow) : Prop :=
  ∀ r < R.chip.size, ∀ t, (R.lanes t).getD r {} = delayed (r + 1) (fun u => SkewLines.entering (rows u) r) t

/-- Before cycle `t` the tiles at the front are `offered 0`, `offered 1`, … in this order, and each stays until it has
been taken. -/
structure Offers (offered : Nat → Tile) (t : Nat) : Prop where
  holds : R.Holds
  size : ∀ k, (offered k).size = R.chip.size
  front : ∀ u < t, ∀ T, R.front u = some T → T = offered (R.taken u)

variable {R}

theorem Offers.mono {offered : Nat → Tile} {s t : Nat} (h : R.Offers offered t) (hst : s ≤ t) : R.Offers offered s :=
  ⟨h.holds, h.size, fun u hu => h.front u (by omega)⟩

/-! ## One cell -/

section Cell

variable {r c : Nat} (hr : r < R.chip.size) (hc : c < R.chip.size)

theorem cell_zero (r c : Nat) : (R.mesh 0).cell r c = {} := by
  simp only [mesh, idle, cell, List.getD_eq_getElem?_getD, List.getElem?_replicate]
  split
  · simp only [Option.getD_some, List.getElem?_replicate]
    split <;> rfl
  · rfl

include hr hc

theorem cell_succ (t : Nat) : (R.mesh (t + 1)).cell r c =
    ((R.mesh t).cell r c).step R.chip.size R.chip.accWidth (R.seen r c t) (R.above r c t) (R.fed r c t) := by
  simp only [mesh, step, cell, nextCells, List.getD_eq_getElem?_getD, List.getElem?_map, List.getElem?_range, hr, hc,
    Option.map_some, Option.getD_some]
  rfl

/-- An element moves one cell to the right per cycle. -/
theorem seen_eq (t : Nat) : R.seen r c t = delayed c (fun u => (R.lanes u).getD r {}) t := by
  induction c generalizing t with
  | zero => simp [seen]
  | succ c ih =>
    cases t with
    | zero => simp only [seen, if_neg (Nat.succ_ne_zero c), cell_zero, delayed_succ_zero]; rfl
    | succ t =>
      rw [delayed_succ_succ, ← ih (by omega) t]
      simp only [seen, if_neg (Nat.succ_ne_zero c), Nat.add_sub_cancel, cell_succ hr (by omega : c < R.chip.size)]
      rfl

end Cell

theorem top_eq (t : Nat) : (R.mesh t).top = (List.range R.chip.size).map fun c => DelayLine.trace c (R.sent c) t := by
  induction t with
  | zero => rfl
  | succ t ih =>
    rw [show (R.mesh (t + 1)).top = (R.mesh t).top.mapIdx fun c line => line.shift (R.sent c t) from rfl, ih]
    apply List.ext_getElem
    · simp
    · intro c h1 h2
      simp [DelayLine.trace]

/-- A feed moves one cell down per cycle and counts the cells it passes. -/
theorem fed_eq {r c : Nat} (hr : r < R.chip.size) (hc : c < R.chip.size) (t : Nat) :
    (R.fed r c t).valid = (delayed (r + c) (R.sent c) t).valid ∧
      ((R.fed r c t).valid = true → (R.fed r c t).weight = (delayed (r + c) (R.sent c) t).weight ∧
        (R.fed r c t).tag = (delayed (r + c) (R.sent c) t).tag + r) := by
  induction r generalizing t with
  | zero =>
    have h : R.fed 0 c t = delayed c (R.sent c) t := by
      simp [fed, top_eq, List.getD_eq_getElem?_getD, hc, DelayLine.output_trace c (R.sent c)]
    simp [h]
  | succ r ih =>
    cases t with
    | zero =>
      have h : R.fed (r + 1) c 0 = {} := by simp [fed, cell_zero]
      rw [h, show r + 1 + c = r + c + 1 by omega, delayed_succ_zero]
      exact ⟨rfl, fun hv => by cases hv⟩
    | succ t =>
      have h : R.fed (r + 1) c (t + 1) = { R.fed r c t with tag := (R.fed r c t).tag + 1 } := by
        simp only [fed, if_neg (Nat.succ_ne_zero r), Nat.add_sub_cancel, cell_succ (by omega : r < R.chip.size) hc]
        rfl
      obtain ⟨hv, hw⟩ := ih (by omega) t
      rw [h, show r + 1 + c = r + c + 1 by omega, delayed_succ_succ]
      refine ⟨hv, fun hval => ⟨(hw hval).1, ?_⟩⟩
      simp only [(hw hval).2]
      omega

/-! ## The two wavefronts -/

section Fronts

variable {rows : Nat → Option MatrixRow} {r c : Nat} (hr : r < R.chip.size) (hc : c < R.chip.size)
include hr hc

/-- The element that cell `(r, c)` sees belongs to the row that was pushed `r + c + 1` cycles ago. -/
theorem seen_rows (hrows : R.FedBy rows) (t : Nat) :
    R.seen r c t = delayed (r + c + 1) (fun u => SkewLines.entering (rows u) r) t := by
  rw [seen_eq hr hc, show r + c + 1 = c + (r + 1) by omega, ← delayed_delayed]
  exact congrArg (fun f => delayed c f t) (funext fun u => hrows r hr u)

omit hr hc in
theorem entering_switches (row? : Option MatrixRow) (r : Nat) :
    ((SkewLines.entering row? r).valid && (SkewLines.entering row? r).switch) = MatrixRow.switches row? := by
  cases row? <;> rfl

omit hr hc in
theorem enters_rows (hrows : R.FedBy rows) (hN : 0 < R.chip.size) (t : Nat) :
    R.enters t = delayed 1 (fun u => MatrixRow.switches (rows u)) t := by
  have h : R.enters t = (((R.lanes t).getD 0 {}).valid && ((R.lanes t).getD 0 {}).switch) := rfl
  rw [h, hrows 0 hN t, map_delayed (fun l : Lane => l.valid && l.switch) rfl]
  exact congrArg (fun f => delayed 1 f t) (funext fun u => entering_switches (rows u) 0)

/-- A switch passes cell `(r, c)` `r + c` cycles after it entered. -/
theorem flips_eq (hrows : R.FedBy rows) (t : Nat) :
    ((R.seen r c t).valid && (R.seen r c t).switch) = delayed (r + c) R.enters t := by
  rw [seen_rows hr hc hrows, map_delayed (fun l : Lane => l.valid && l.switch) rfl]
  have h : delayed (r + c) R.enters t =
      delayed (r + c) (fun u => delayed 1 (fun v => MatrixRow.switches (rows v)) u) t :=
    congrArg (fun f => delayed (r + c) f t) (funext fun u => enters_rows hrows (by omega) u)
  rw [h, delayed_delayed]
  exact congrArg (fun f => delayed (r + c + 1) f t) (funext fun u => entering_switches (rows u) r)

variable {offered : Nat → Tile} {t : Nat} (ho : R.Offers offered (t + 1)) (hz : R.SafeBefore t)
include ho

/-- The tile that was taken `c` cycles ago reaches its row in cell `(r, c)`, and brings its weight. -/
theorem settles_of_takes (h : delayed c R.takes t = true) :
    (R.fed r c t).valid = true ∧ (R.fed r c t).tag = R.chip.size - 1 ∧
      (R.fed r c t).weight = (offered (R.taken (t - c))).get r c := by
  obtain ⟨hv, hw⟩ := fed_eq hr hc t
  have hct : c ≤ t := by
    by_contra hlt
    rw [delayed_of_lt (by omega)] at h
    cases h
  rw [delayed_of_le hct] at h
  obtain ⟨k, hp, hk⟩ := takes_iff.1 h
  -- the window that ends in cycle `t - c` broadcast row `r` of its tile `r` cycles earlier
  obtain ⟨hrt, hp'⟩ := window_back hp r (by omega)
  obtain ⟨tile, htile⟩ := Option.isSome_iff_exists.1 (front_of_programming ho.holds hp')
  have hsize : tile.size = R.chip.size := by rw [ho.front _ (by omega) _ htile]; exact ho.size _
  have hsent : delayed (r + c) (R.sent c) t = ⟨tile.get r c, k - r, true⟩ := by
    rw [delayed_of_le (by omega), show t - (r + c) = t - c - r by omega]
    simp only [sent, broadcast, hp', htile]
    rw [Tile.getD_row (by omega), show R.chip.size - 1 - (k - r) = r by omega]
  have hval : (R.fed r c t).valid = true := by rw [hv, hsent]
  obtain ⟨hwt, htag⟩ := hw hval
  rw [hsent] at hwt htag
  refine ⟨hval, by simp only [htag]; omega, ?_⟩
  rw [hwt, ho.front _ (by omega) _ htile, taken_window hp (by omega) r (by omega)]

include hz in
/-- The feed that reaches its row in cell `(r, c)` comes from the tile taken `c` cycles ago. -/
theorem takes_of_settles (hval : (R.fed r c t).valid = true) (htag : (R.fed r c t).tag = R.chip.size - 1) :
    delayed c R.takes t = true := by
  obtain ⟨hv, hw⟩ := fed_eq hr hc t
  have htag' := (hw hval).2
  rw [hv] at hval
  have hle : r + c ≤ t := by
    by_contra hlt
    rw [delayed_of_lt (by omega)] at hval
    cases hval
  rw [delayed_of_le hle] at hval htag'
  -- a valid broadcast is a step of a window, and the tag tells which
  cases hp : (R.mesh (t - (r + c))).programming with
  | none => simp [sent, broadcast, hp] at hval
  | some k =>
    have htk : (R.sent c (t - (r + c))).tag = k := by
      cases hf : R.front (t - (r + c)) with
      | none => simp [sent, broadcast, hp, hf] at hval
      | some tile => simp [sent, broadcast, hp, hf]
    have hsize := ((paced (by omega) ho.holds (hz.mono (by omega : t - (r + c) ≤ t))).running k hp).1
    have hfw := window_forward hp r (by omega)
    rw [show t - (r + c) + r = t - c by omega] at hfw
    rw [delayed_of_le (by omega)]
    exact takes_iff.2 ⟨k + r, hfw, by omega⟩

end Fronts

theorem entered_sub_succ (n t : Nat) :
    R.entered (t + 1 - n) = R.entered (t - n) + if delayed n R.enters t = true then 1 else 0 := by
  have h := Nat.count_succ (fun u => delayed n R.enters u = true) t
  rwa [count_delayed, count_delayed] at h

theorem taken_sub_succ (n t : Nat) :
    R.taken (t + 1 - n) = R.taken (t - n) + if delayed n R.takes t = true then 1 else 0 := by
  have h := Nat.count_succ (fun u => delayed n R.takes u = true) t
  rwa [count_delayed, count_delayed] at h

section Cell

variable {rows : Nat → Option MatrixRow} {offered : Nat → Tile} {r c : Nat} (hr : r < R.chip.size)
  (hc : c < R.chip.size)
include hr hc

omit hc in
/-- At most one tile has settled in a cell that no switch has brought in there yet. -/
theorem taken_sub_le (hf : R.Holds) {t : Nat} (hz : R.SafeBefore t) :
    R.taken (t - c) ≤ R.entered (t - (r + c)) + 1 := by
  have h := taken_le_entered_sub (by omega) hf (hz.mono (Nat.sub_le t c))
  have hmono := R.entered_mono (show t - c - R.chip.size ≤ t - (r + c) by omega)
  omega

/-- A switch found a staged tile when it entered, and where it passes that tile has settled. -/
theorem taken_of_flip (hf : R.Holds) {t : Nat} (hz : R.SafeBefore (t + 1))
    (hflip : delayed (r + c) R.enters t = true) : R.taken (t - c) = R.entered (t - (r + c)) + 1 := by
  have hle : r + c ≤ t := by
    by_contra hlt
    rw [delayed_of_lt (by omega)] at hflip
    cases hflip
  rw [delayed_of_le hle] at hflip
  obtain ⟨hnone, hloaded⟩ := of_enters (hz (t - (r + c)) (by omega)) hflip
  have hahead := (paced (by omega) hf (hz.mono (by omega : t - (r + c) ≤ t + 1))).staged hnone hloaded
  have hmono := R.taken_mono (show t - (r + c) ≤ t - c by omega)
  have hlag := taken_sub_le (c := c) hr hf (hz.mono (Nat.le_succ t))
  omega

/-- A cell settles the weight of a tile `c` cycles after the array has taken it. -/
theorem settles_eq {t : Nat} (ho : R.Offers offered (t + 1)) (hz : R.SafeBefore t) :
    ((R.fed r c t).valid && (R.fed r c t).tag == R.chip.size - 1) = delayed c R.takes t := by
  rw [Bool.eq_iff_iff, Bool.and_eq_true, beq_iff_eq]
  constructor
  · rintro ⟨hval, htag⟩
    exact takes_of_settles hr hc ho hz hval htag
  · intro h
    obtain ⟨hval, htag, -⟩ := settles_of_takes hr hc ho h
    exact ⟨hval, htag⟩

/-- **The weights of a cell.** The current weight is that of the tile in use after the switches that have passed the
cell. If a tile has settled since, its weight is the staged one. -/
theorem weights (hrows : R.FedBy rows) {t : Nat} (ho : R.Offers offered t) (hz : R.SafeBefore t) :
    ((R.mesh t).cell r c).current = (Tile.inUse R.chip.size offered (R.entered (t - (r + c)))).get r c ∧
      (R.entered (t - (r + c)) < R.taken (t - c) →
        ((R.mesh t).cell r c).staged = (Tile.inUse R.chip.size offered (R.taken (t - c))).get r c) := by
  induction t with
  | zero =>
    rw [Nat.zero_sub, Nat.zero_sub, entered_zero, taken_zero, cell_zero, Tile.get_inUse_zero]
    exact ⟨rfl, fun h => absurd h (by omega)⟩
  | succ t ih =>
    obtain ⟨hcur, hst⟩ := ih (ho.mono (Nat.le_succ t)) (hz.mono (Nat.le_succ t))
    have hwt := fun hs => (settles_of_takes hr hc ho hs).2.2
    have hlag := taken_sub_le (c := c) hr ho.holds hz
    rw [cell_succ hr hc, entered_sub_succ, taken_sub_succ]
    rw [entered_sub_succ, taken_sub_succ] at hlag
    simp only [Cell.step, flips_eq hr hc hrows t, settles_eq hr hc ho (hz.mono (Nat.le_succ t))]
    cases hf : delayed (r + c) R.enters t with
    | true =>
      have heq := taken_of_flip hr hc ho.holds hz hf
      refine ⟨?_, fun hlt => ?_⟩
      · simp only [if_true]
        rw [hst (by omega), heq]
      · cases hs : delayed c R.takes t with
        | true =>
          simp only [if_true]
          rw [hwt hs]
          rfl
        | false =>
          simp only [hs, if_true, if_false, Bool.false_eq_true] at hlt
          omega
    | false =>
      refine ⟨by simpa using hcur, fun hlt => ?_⟩
      cases hs : delayed c R.takes t with
      | true =>
        simp only [if_true]
        rw [hwt hs]
        rfl
      | false =>
        simp only [hs, if_false, Bool.false_eq_true, Nat.add_zero] at hlt ⊢
        exact hst hlt

end Cell

end Mesh.Run

end Systolic
