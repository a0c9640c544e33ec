/-
  Cells turned around the earth (shard.rs, Router::cell_at, under the longitudes of solve.rs and
  of the handshake).

  Cells are numbered in plain degrees from Greenwich, `N` of level 0 to the turn. A longitude
  turned by `k` cells has moved `k` cells less `N` for every time it is taken back
  (`turnPoint_eq`), and how often that is depends on the half of its cell alone (`wraps_eq`). The
  cells that are neither at longitude 180 nor at -180 are `Inside`: their columns leave out one of
  the `N` on the circle, so that no two of them turn to one cell (`turnKey_inj`).
-/
import Mlatd.Territory.Cells

namespace Mlatd

/-! ## Longitudes on a circle -/

/-- A longitude taken to `[-180, 180)`, as `solve` takes it. -/
def wrapLon (x : ℚ) : ℚ := F64.remEuclid (x + 540.0) 360.0 - 180.0

/-- The turns that a longitude is taken back when it is turned by `k` cells. -/
def wraps (baseDeg : ℚ) (k : ℤ) (lon : ℚ) : ℤ := ⌊(lon + k * baseDeg + 180.0) / 360.0⌋

theorem wrapLon_eq (x : ℚ) : wrapLon x = x - 360 * ⌊(x + 180) / 360⌋ := by
  have h540 : (540.0 : ℚ) = 540 := by norm_num
  have h180 : (180.0 : ℚ) = 180 := by norm_num
  have h360 : |(360.0 : ℚ)| = 360 := by norm_num
  have hshift : (x + 540) / 360 = (x + 180) / 360 + 1 := by ring
  have h : wrapLon x = x + 540.0 - |(360.0 : ℚ)| * ⌊(x + 540.0) / |(360.0 : ℚ)|⌋ - 180.0 := rfl
  rw [h, h360, h540, h180, hshift, Int.floor_add_one]
  push_cast
  ring

theorem wrapLon_mem (x : ℚ) : -180 ≤ wrapLon x ∧ wrapLon x < 180 := by
  have h1 := Int.floor_le ((x + 180) / 360)
  have h2 := Int.lt_floor_add_one ((x + 180) / 360)
  rw [le_div_iff₀ (by norm_num)] at h1
  rw [div_lt_iff₀ (by norm_num)] at h2
  rw [wrapLon_eq]
  exact ⟨by linarith, by linarith⟩

theorem wrapLon_turned (baseDeg : ℚ) (k : ℤ) (x : ℚ) :
    wrapLon (x + k * baseDeg) = x + k * baseDeg - 360 * wraps baseDeg k x := by
  have h180 : (180.0 : ℚ) = 180 := by norm_num
  have h360 : (360.0 : ℚ) = 360 := by norm_num
  unfold wraps
  rw [wrapLon_eq, h180, h360]

namespace Router

/-! ## Cells in plain degrees -/

/-- The point `t` cells of level 0 to the east, not taken back. -/
def shiftPoint (baseDeg : ℚ) (t : ℤ) (p : ℚ × ℚ) : ℚ × ℚ := (p.1, p.2 + t * baseDeg)

/-- The cell of a level around a point, before the cast. -/
def gridAt (baseDeg : ℚ) (level : ℕ) (p : ℚ × ℚ) : CellKey :=
  (level, ⌊p.1 / cellSize baseDeg level⌋, ⌊p.2 / cellSize baseDeg level⌋)

/-- The cell `t` cells of level 0 to the east. -/
def shiftKey (t : ℤ) (key : CellKey) : CellKey := (key.1, key.2.1, key.2.2 + t * 2 ^ key.1)

/-- The cell of level 0 that a cell was cut from. -/
def ancestor (key : CellKey) : CellKey := (0, key.2.1 / 2 ^ key.1, key.2.2 / 2 ^ key.1)

/-- The cell `d` steps away. -/
def neighbourKey (key : CellKey) (d : ℤ × ℤ) : CellKey := (key.1, key.2.1 + d.1, key.2.2 + d.2)

theorem neighbourKey_zero (key : CellKey) : neighbourKey key (0, 0) = key := by
  unfold neighbourKey
  rw [add_zero, add_zero]

theorem cellSize_zero (baseDeg : ℚ) : cellSize baseDeg 0 = baseDeg := by
  rw [cellSize_eq, pow_zero, div_one]

theorem ancestor_zero {key : CellKey} (h : key.1 = 0) : ancestor key = key := by
  unfold ancestor
  rw [h, pow_zero, Int.ediv_one, Int.ediv_one, ← h]

theorem ancestor_shiftKey (t : ℤ) (key : CellKey) :
    ancestor (shiftKey t key) = shiftKey t (ancestor key) := by
  unfold ancestor shiftKey
  simp only [pow_zero, mul_one]
  rw [Int.add_mul_ediv_right _ _ (by positivity)]

theorem shiftKey_inj (t : ℤ) {a b : CellKey} (h : shiftKey t a = shiftKey t b) : a = b := by
  obtain ⟨l, y, x⟩ := a
  obtain ⟨l', y', x'⟩ := b
  unfold shiftKey at h
  simp only [Prod.mk.injEq] at h
  obtain ⟨rfl, rfl, h⟩ := h
  rw [add_right_cancel h]

/-- In one coordinate, the column of level 0 that a column was cut from. -/
theorem floor_div_pow (x baseDeg : ℚ) (level : ℕ) :
    ⌊x / cellSize baseDeg level⌋ / 2 ^ level = ⌊x / baseDeg⌋ := by
  have h := Int.floor_div_natCast (x / cellSize baseDeg level) (2 ^ level)
  rw [cellSize_eq] at h ⊢
  rw [div_div_eq_mul_div, mul_div_right_comm] at h ⊢
  rw [Nat.cast_pow, Nat.cast_ofNat, mul_div_assoc, div_self (by positivity), mul_one] at h
  rw [h]
  push_cast
  rfl

theorem ancestor_gridAt (baseDeg : ℚ) (level : ℕ) (p : ℚ × ℚ) :
    ancestor (gridAt baseDeg level p) = gridAt baseDeg 0 p := by
  unfold ancestor gridAt
  simp only [floor_div_pow, cellSize_zero]

theorem gridAt_shift {baseDeg : ℚ} (hb : 0 < baseDeg) (level : ℕ) (t : ℤ) (p : ℚ × ℚ) :
    gridAt baseDeg level (shiftPoint baseDeg t p) = shiftKey t (gridAt baseDeg level p) := by
  have h : (p.2 + t * baseDeg) / cellSize baseDeg level =
      p.2 / cellSize baseDeg level + ((t * 2 ^ level : ℤ) : ℚ) := by
    rw [cellSize_eq]
    push_cast
    field_simp
  unfold gridAt shiftPoint shiftKey
  simp only
  rw [h, Int.floor_add_intCast]

/-- In the middle of a cell. -/
theorem floor_centre {size : ℚ} (hs : 0 < size) (n d : ℤ) :
    ⌊((F64.ofInt n + 0.5) * size + F64.ofInt d * size) / size⌋ = n + d := by
  have h : ((F64.ofInt n + 0.5) * size + F64.ofInt d * size) / size = ((n + d : ℤ) : ℚ) + 1 / 2 := by
    show (((n : ℚ) + 0.5) * size + (d : ℚ) * size) / size = _
    push_cast
    field_simp
    norm_num
    ring
  rw [h, Int.floor_intCast_add]
  norm_num

theorem gridAt_centre {r : Router ℚ} (hb : 0 < r.baseDeg) (key : CellKey) (d : ℤ × ℤ) :
    gridAt r.baseDeg 0 (r.centre key d) = ancestor (neighbourKey key d) := by
  have hs : 0 < cellSize r.baseDeg key.1 := by
    rw [cellSize_eq]
    positivity
  have h : gridAt r.baseDeg key.1 (r.centre key d) = neighbourKey key d := by
    unfold gridAt centre neighbourKey
    simp only
    rw [floor_centre hs, floor_centre hs]
  rw [← ancestor_gridAt r.baseDeg key.1, h]

theorem centre_shiftKey {r r' : Router ℚ} (hb : r'.baseDeg = r.baseDeg) (t : ℤ) (key : CellKey)
    (d : ℤ × ℤ) : r'.centre (shiftKey t key) d = shiftPoint r.baseDeg t (r.centre key d) := by
  have h : ((key.2.2 + t * 2 ^ key.1 : ℤ) : ℚ) * cellSize r.baseDeg key.1 =
      key.2.2 * cellSize r.baseDeg key.1 + t * r.baseDeg := by
    rw [cellSize_eq]
    push_cast
    field_simp
  refine Prod.ext ?_ ?_
  · unfold centre shiftKey shiftPoint
    rw [hb]
  · show (((key.2.2 + t * 2 ^ key.1 : ℤ) : ℚ) + 0.5) * cellSize r'.baseDeg key.1 +
        (d.2 : ℚ) * cellSize r'.baseDeg key.1 =
      ((key.2.2 : ℚ) + 0.5) * cellSize r.baseDeg key.1 + (d.2 : ℚ) * cellSize r.baseDeg key.1 +
        t * r.baseDeg
    rw [hb, add_mul, h]
    ring

/-- One step away is one cell of level 0 away at the most. -/
theorem ediv_step {n d P : ℤ} (hP : 0 < P) (h1 : -1 ≤ d) (h2 : d ≤ 1) :
    n / P - 1 ≤ (n + d) / P ∧ (n + d) / P ≤ n / P + 1 := by
  have h3 := Int.mul_ediv_self_le (x := n) hP.ne'
  have h4 := Int.lt_mul_ediv_self_add (x := n) hP
  constructor
  · rw [Int.le_ediv_iff_mul_le hP]
    nlinarith
  · apply Int.lt_add_one_iff.1
    rw [Int.ediv_lt_iff_lt_mul hP]
    nlinarith

theorem ancestor_neighbour (key : CellKey) {d : ℤ × ℤ} (hd : d ∈ (0, 0) :: neighbours) :
    ((ancestor key).2.1 - 1 ≤ (ancestor (neighbourKey key d)).2.1 ∧
      (ancestor (neighbourKey key d)).2.1 ≤ (ancestor key).2.1 + 1) ∧
    (ancestor key).2.2 - 1 ≤ (ancestor (neighbourKey key d)).2.2 ∧
      (ancestor (neighbourKey key d)).2.2 ≤ (ancestor key).2.2 + 1 := by
  have hstep : ∀ d ∈ (0, 0) :: neighbours, (-1 ≤ d.1 ∧ d.1 ≤ 1) ∧ -1 ≤ d.2 ∧ d.2 ≤ 1 := by decide
  obtain ⟨⟨h1, h2⟩, h3, h4⟩ := hstep d hd
  exact ⟨ediv_step (by positivity) h1 h2, ediv_step (by positivity) h3 h4⟩

/-! ## Turned points -/

/-- The point `k` cells of level 0 to the east, its longitude in `[-180, 180)`. -/
def turnPoint (baseDeg : ℚ) (k : ℤ) (p : ℚ × ℚ) : ℚ × ℚ := (p.1, wrapLon (p.2 + k * baseDeg))

/-- A meridian of the half of a cell of level 0 that `east` names. -/
def meridian (baseDeg : ℚ) (east : CellKey → Bool) (cell : CellKey) : ℚ :=
  (F64.ofInt cell.2.2 + if east cell then 0.5 else 0.0) * baseDeg

/-- The turns that this half of the cell is taken back. -/
def way (baseDeg : ℚ) (east : CellKey → Bool) (k : ℤ) (cell : CellKey) : ℤ :=
  wraps baseDeg k (meridian baseDeg east cell)

section
variable {N : ℕ} (hN : 0 < N) {east : CellKey → Bool} {k : ℤ}
include hN

theorem turnPoint_eq (k : ℤ) (p : ℚ × ℚ) :
    turnPoint (360 / N) k p = shiftPoint (360 / N) (k - N * wraps (360 / N) k p.2) p := by
  have h : (N : ℚ) * (360 / N) = 360 := by
    field_simp
  unfold turnPoint shiftPoint
  rw [wrapLon_turned]
  refine Prod.ext rfl ?_
  push_cast
  linear_combination (wraps (360 / N) k p.2 : ℚ) * h

/-- How often a longitude is taken back depends on the half of its cell alone. -/
theorem wraps_eq (k : ℤ) (x : ℚ) :
    wraps (360 / N) k x = (⌊x / (180 / N)⌋ + 2 * k + N) / (2 * N) := by
  have h : (x + k * (360 / N) + 180.0) / 360.0 =
      (x / (180 / N) + ((2 * k + N : ℤ) : ℚ)) / ((2 * N : ℕ) : ℚ) := by
    have h180 : (180.0 : ℚ) = 180 := by norm_num
    have h360 : (360.0 : ℚ) = 360 := by norm_num
    rw [h180, h360]
    push_cast
    field_simp
    ring
  unfold wraps
  rw [h, Int.floor_div_natCast, Int.floor_add_intCast]
  push_cast
  rw [add_assoc]

theorem way_eq (east : CellKey → Bool) (k : ℤ) (cell : CellKey) :
    way (360 / N) east k cell =
      (2 * cell.2.2 + (if east cell then 1 else 0) + 2 * k + N) / (2 * N) := by
  have h : meridian (360 / N) east cell / (180 / N) =
      ((2 * cell.2.2 + if east cell then 1 else 0 : ℤ) : ℚ) := by
    unfold meridian
    show ((cell.2.2 : ℚ) + if east cell then 0.5 else 0.0) * (360 / N) / (180 / N) = _
    split
    · push_cast
      field_simp
      norm_num
      ring
    · push_cast
      field_simp
      norm_num
      ring
  unfold way
  rw [wraps_eq hN, h, Int.floor_intCast]

end

/-- A position is in the half of its cell that `east` names, unless half a turn is whole cells. -/
def OneHalf (baseDeg : ℚ) (east : CellKey → Bool) (p : Position) : Prop :=
  (∃ n : ℕ, n * baseDeg = 180) ∨
    (east (cellAt baseDeg 0 p.point) = true ↔
      meridian baseDeg (fun _ => true) (cellAt baseDeg 0 p.point) ≤ p.lon)

/-- The cells to the east that a cell turned by `k` moves. -/
def moved (N : ℕ) (east : CellKey → Bool) (k : ℤ) (cell : CellKey) : ℤ :=
  k - N * way (360 / N) east k cell

/-- A cell turned by `k` cells of level 0, with all that was cut from the same. -/
def turnKey (N : ℕ) (east : CellKey → Bool) (k : ℤ) (key : CellKey) : CellKey :=
  shiftKey (moved N east k (ancestor key)) key

/-! ## Cells away from the cut -/

/-- The first column that is not that of longitude -180, and the column of longitude 180. -/
def western (N : ℕ) : ℤ := -((N - 1) / 2 : ℕ)
def eastern (N : ℕ) : ℤ := (N / 2 : ℕ)

/-- A cell of the planet neither at longitude 180 nor at -180, as far as it is few columns from
    Greenwich. -/
structure Inside (N : ℕ) (key : CellKey) : Prop where
  west : western N ≤ (ancestor key).2.2
  east : (ancestor key).2.2 < eastern N
  row : -(N : ℤ) ≤ (ancestor key).2.1 ∧ (ancestor key).2.1 ≤ N
  fits : -32767 ≤ (ancestor key).2.1 ∧ (ancestor key).2.1 ≤ 32766

/-- An index of level 0 that the cast does not change, nor its halves. -/
def Small (N : ℕ) (n : ℤ) : Prop :=
  (-(N + 1 : ℤ) ≤ n ∧ n ≤ N + 1) ∧ -32768 ≤ n ∧ n ≤ 32767

/-- So are both indices of a cell. -/
def Near (N : ℕ) (cell : CellKey) : Prop := Small N cell.2.1 ∧ Small N cell.2.2

/-- The cells of a level are few to the turn. -/
def Coarse (N level : ℕ) : Prop := level = 0 ∨ N * 2 ^ level ≤ 180

section
variable {N : ℕ} {k : ℤ} {east : CellKey → Bool}

/-- The columns inside leave out one on the circle. -/
theorem not_inside_of_dvd {key : CellKey} (h : (N : ℤ) ∣ (ancestor key).2.2 - eastern N) :
    ¬ Inside N key := by
  rintro ⟨h1, h2, -, -⟩
  have hzero := Int.eq_zero_of_abs_lt_dvd h (by
    unfold western at h1
    unfold eastern at h2 ⊢
    rw [abs_lt]
    omega)
  omega

/-- Cells inside that turn to one column are of one column. -/
theorem column_inj {a b : CellKey} (ha : Inside N a) (hb : Inside N b)
    (h : (N : ℤ) ∣ (ancestor a).2.2 - (ancestor b).2.2) :
    (ancestor a).2.2 = (ancestor b).2.2 := by
  obtain ⟨h1, h2, -, -⟩ := ha
  obtain ⟨h3, h4, -, -⟩ := hb
  have hzero := Int.eq_zero_of_abs_lt_dvd h (by
    unfold western at h1 h3
    unfold eastern at h2 h4
    rw [abs_lt]
    omega)
  omega

theorem moved_sub (east : CellKey → Bool) (k : ℤ) (a b : CellKey) :
    moved N east k a - moved N east k b = N * (way (360 / N) east k b - way (360 / N) east k a) := by
  unfold moved
  ring

/-- No two cells inside turn to one. -/
theorem turnKey_inj {a b : CellKey} (ha : Inside N a) (hb : Inside N b)
    (h : turnKey N east k a = turnKey N east k b) : a = b := by
  have hcell := congrArg ancestor h
  unfold turnKey at hcell
  rw [ancestor_shiftKey, ancestor_shiftKey] at hcell
  have hrow : (ancestor a).2.1 = (ancestor b).2.1 := congrArg (·.2.1) hcell
  have hcol : (ancestor a).2.2 + moved N east k (ancestor a) * 2 ^ 0 =
      (ancestor b).2.2 + moved N east k (ancestor b) * 2 ^ 0 := congrArg (·.2.2) hcell
  have heq : (ancestor a).2.2 = (ancestor b).2.2 := by
    apply column_inj ha hb
    have hsub := moved_sub (N := N) east k (ancestor b) (ancestor a)
    rw [pow_zero, mul_one, mul_one] at hcol
    exact Dvd.intro _ (hsub.symm.trans (by linarith))
  have hsame : ancestor a = ancestor b := Prod.ext rfl (Prod.ext hrow heq)
  unfold turnKey at h
  rw [hsame] at h
  exact shiftKey_inj _ h

section
variable (hN : 0 < N)
include hN

/-- Where the cells of level 0 turn to. -/
theorem turned_column (cell : CellKey) :
    -(N + 1 : ℤ) ≤ 2 * (cell.2.2 + moved N east k cell) ∧
      2 * (cell.2.2 + moved N east k cell) < N := by
  have hpos : (0 : ℤ) < 2 * N := by omega
  have h1 := Int.emod_nonneg (2 * cell.2.2 + (if east cell then 1 else 0) + 2 * k + N) hpos.ne'
  have h2 := Int.emod_lt_of_pos (2 * cell.2.2 + (if east cell then 1 else 0) + 2 * k + N) hpos
  rw [Int.emod_def, ← way_eq hN] at h1 h2
  have hhalf : (0 : ℤ) ≤ (if east cell then 1 else 0) ∧ (if east cell then 1 else 0) ≤ (1 : ℤ) := by
    split <;> omega
  unfold moved
  constructor
  · linarith
  · linarith

/-- The cast is exact for small indices. -/
theorem cast_small {x : ℚ} {level : ℕ} (hl : Coarse N level) (h : Small N ⌊x / (360 / N)⌋) :
    F64.asI16 (F64.floor (x / cellSize (360 / N : ℚ) level)) =
      ⌊x / cellSize (360 / N : ℚ) level⌋ := by
  have hdiv := floor_div_pow x (360 / N) level
  obtain ⟨⟨h1, h2⟩, h3, h4⟩ := h
  rw [asI16_floor]
  rcases hl with rfl | hl
  · rw [pow_zero, Int.ediv_one] at hdiv
    rw [hdiv]
    unfold F64.saturate
    omega
  · set n := ⌊x / cellSize (360 / N : ℚ) level⌋
    set c := ⌊x / (360 / N : ℚ)⌋
    have hpow : (0 : ℤ) < 2 ^ level := by positivity
    have hle : (N : ℤ) * 2 ^ level ≤ 180 := by exact_mod_cast hl
    have hone : (2 : ℤ) ^ level ≤ N * 2 ^ level :=
      le_mul_of_one_le_left hpow.le (by exact_mod_cast hN)
    have hlow := Int.ediv_mul_le n hpow.ne'
    have hhigh := Int.lt_ediv_add_one_mul_self n hpow
    rw [hdiv] at hlow hhigh
    have h5 : -(N + 1 : ℤ) * 2 ^ level ≤ c * 2 ^ level := mul_le_mul_of_nonneg_right h1 hpow.le
    have h6 : c * 2 ^ level ≤ (N + 1) * 2 ^ level := mul_le_mul_of_nonneg_right h2 hpow.le
    unfold F64.saturate
    rw [add_mul, one_mul] at hhigh h6
    rw [neg_mul, add_mul, one_mul] at h5
    omega

theorem cellAt_eq_gridAt {q : ℚ × ℚ} {level : ℕ} (hl : Coarse N level)
    (h : Near N (gridAt (360 / N) 0 q)) :
    cellAt (360 / N : ℚ) level q = gridAt (360 / N) level q := by
  obtain ⟨h1, h2⟩ := h
  unfold gridAt at h1 h2
  simp only [cellSize_zero] at h1 h2
  unfold cellAt gridAt
  rw [cast_small hN hl h1, cast_small hN hl h2]

/-- A position in the half of its cell that `east` names is taken back as often as the half is. -/
theorem wraps_eq_way {p : Position} (hp : OneHalf (360 / N) east p)
    (hcol : (cellAt (360 / N : ℚ) 0 p.point).2.2 = ⌊p.lon / (360 / N : ℚ)⌋) :
    wraps (360 / N) k p.lon = way (360 / N) east k (cellAt (360 / N : ℚ) 0 p.point) := by
  have hhalf : ⌊p.lon / (180 / N : ℚ)⌋ / 2 = ⌊p.lon / (360 / N : ℚ)⌋ := by
    have h := floor_half p.lon (360 / N)
    rwa [show (360 / N / 2 : ℚ) = 180 / N by ring] at h
  unfold OneHalf at hp
  rw [wraps_eq hN, way_eq hN, hcol]
  set h := ⌊p.lon / (180 / N : ℚ)⌋ with hh
  set c := ⌊p.lon / (360 / N : ℚ)⌋
  rcases hp with ⟨n, hn⟩ | hp
  · -- the two halves of a cell are taken back alike
    have heven : N = 2 * n := by
      have h1 : (n : ℚ) * 360 = 180 * N := by
        field_simp at hn
        linarith
      have h2 : n * 360 = 180 * N := by exact_mod_cast h1
      omega
    have hdiv (e : ℤ) (he : 0 ≤ e ∧ e ≤ 1) :
        (2 * c + e + 2 * k + N) / (2 * N) = (c + k + n) / N := by
      rw [← Int.ediv_ediv_of_nonneg (by decide)]
      congr 1
      omega
    have h1 : h = 2 * c + (h - 2 * c) := by ring
    rw [h1, hdiv _ (by omega), hdiv]
    split <;> omega
  · -- the meridian in the middle of the cell tells the halves
    have hmiddle : meridian (360 / N) (fun _ => true) (cellAt (360 / N : ℚ) 0 p.point) ≤ p.lon ↔
        2 * c + 1 ≤ h := by
      have h1 : meridian (360 / N) (fun _ => true) (cellAt (360 / N : ℚ) 0 p.point) =
          ((2 * c + 1 : ℤ) : ℚ) * (180 / N) := by
        unfold meridian
        show (((cellAt (360 / N : ℚ) 0 p.point).2.2 : ℚ) + 0.5) * (360 / N) = _
        rw [hcol]
        push_cast
        norm_num
        ring
      rw [h1, hh, Int.le_floor, le_div_iff₀ (by positivity)]
    rw [hmiddle] at hp
    congr 3
    split
    · next he =>
      have := hp.1 he
      omega
    · next he =>
      have := mt hp.2 he
      omega

/-! ## Around a cell away from the cut -/

omit hN in
theorem ancestor_ancestor (key : CellKey) : ancestor (ancestor key) = ancestor key :=
  ancestor_zero rfl

omit hN in
theorem Inside.of_ancestor {a b : CellKey} (h : ancestor a = ancestor b) (ha : Inside N a) :
    Inside N b := by
  obtain ⟨h1, h2, h3, h4⟩ := ha
  rw [h] at h1 h2 h3 h4
  exact ⟨h1, h2, h3, h4⟩

/-- Inside, a cell is not taken back unless it is turned. -/
theorem way_zero {key : CellKey} (h : Inside N key) :
    way (360 / N) east 0 (ancestor key) = 0 := by
  obtain ⟨h1, h2, -, -⟩ := h
  rw [way_eq hN]
  unfold western at h1
  unfold eastern at h2
  apply Int.ediv_eq_zero_of_lt
  · split <;> omega
  · split <;> omega

theorem turnKey_zero {key : CellKey} (h : Inside N key) : turnKey N east 0 key = key := by
  unfold turnKey moved shiftKey
  rw [way_zero hN h, mul_zero, sub_zero, zero_mul, add_zero]

section
variable (hfit : N ≤ 65534) {key : CellKey} (h : Inside N key)
include hfit h

/-- The cells next to one inside have small indices. -/
theorem near_neighbour {d : ℤ × ℤ} (hd : d ∈ (0, 0) :: neighbours) :
    Near N (ancestor (neighbourKey key d)) := by
  have hstep := ancestor_neighbour key hd
  obtain ⟨h1, h2, h3, h4⟩ := h
  unfold western at h1
  unfold eastern at h2
  unfold Near Small
  omega

/-- So they have turned with it. -/
theorem near_turned {d : ℤ × ℤ} (hd : d ∈ (0, 0) :: neighbours) :
    Near N (shiftKey (moved N east k (ancestor key)) (ancestor (neighbourKey key d))) := by
  have hstep := ancestor_neighbour key hd
  obtain ⟨-, -, h1, h2⟩ := h
  have hcol : -(N + 1 : ℤ) ≤ 2 * ((ancestor key).2.2 + moved N east k (ancestor key)) ∧
      2 * ((ancestor key).2.2 + moved N east k (ancestor key)) < N := turned_column hN (ancestor key)
  unfold Near Small shiftKey
  simp only [show (ancestor (neighbourKey key d)).1 = 0 from rfl, pow_zero, mul_one]
  omega

end

omit hN in
/-- Next to a cell inside, one that is not inside is whole turns away from no cell inside. -/
theorem not_dvd_of_out {key κ : CellKey} (hk : Inside N key) {d : ℤ × ℤ} (hd : d ∈ neighbours)
    (hout : ¬ Inside N (neighbourKey key d)) (hκ : Inside N κ)
    (hrow : (ancestor (neighbourKey key d)).2.1 = (ancestor κ).2.1) :
    ¬ (N : ℤ) ∣ (ancestor (neighbourKey key d)).2.2 - (ancestor κ).2.2 := by
  obtain ⟨-, h1, h2⟩ := ancestor_neighbour key (List.mem_cons_of_mem _ hd)
  set a := ancestor (neighbourKey key d)
  intro hdvd
  have hcut : (N : ℤ) ∣ a.2.2 - eastern N := by
    have h3 : ¬ (western N ≤ a.2.2 ∧ a.2.2 < eastern N) := fun h3 =>
      hout ⟨h3.1, h3.2, hrow ▸ hκ.row, hrow ▸ hκ.fits⟩
    obtain ⟨h4, h5, -, -⟩ := hk
    unfold western at h3 h4
    unfold eastern at h3 h5 ⊢
    have h6 : a.2.2 - (N / 2 : ℕ) = 0 ∨ a.2.2 - (N / 2 : ℕ) = -N := by omega
    rcases h6 with h6 | h6
    · rw [h6]
      exact dvd_zero _
    · rw [h6]
      exact (dvd_refl _).neg_right
  refine not_inside_of_dvd ?_ hκ
  have h3 := dvd_sub hcut hdvd
  rwa [show a.2.2 - eastern N - (a.2.2 - (ancestor κ).2.2) = (ancestor κ).2.2 - eastern N by
    ring] at h3

/-- Next to a cell inside, what turns to where a cell inside does is that cell, turned as far. -/
theorem eq_of_turned {key κ : CellKey} (hk : Inside N key) {d : ℤ × ℤ} (hd : d ∈ neighbours)
    (hκ : Inside N κ)
    (h : shiftKey (moved N east k (ancestor key)) (ancestor (neighbourKey key d)) =
      turnKey N east k κ) :
    Inside N (neighbourKey key d) ∧
      way (360 / N) east k (ancestor (neighbourKey key d)) = way (360 / N) east k (ancestor key) := by
  set a := ancestor (neighbourKey key d) with ha
  have hlevel : κ.1 = 0 := (congrArg (·.1) h).symm
  have hown : ancestor κ = κ := ancestor_zero hlevel
  have hrow : a.2.1 = κ.2.1 := congrArg (·.2.1) h
  have hcol : a.2.2 + moved N east k (ancestor key) = κ.2.2 + moved N east k κ := by
    have h3 := congrArg (·.2.2) h
    unfold turnKey shiftKey at h3
    rw [hown, hlevel] at h3
    simpa [ha, ancestor] using h3
  have hsub := moved_sub (N := N) east k κ (ancestor key)
  have hdvd : (N : ℤ) ∣ a.2.2 - κ.2.2 := Dvd.intro _ (hsub.symm.trans (by linarith))
  have hin : Inside N (neighbourKey key d) := by
    by_contra hout
    refine not_dvd_of_out hk hd hout hκ ?_ ?_
    · rw [hown]
      exact hrow
    · rw [hown]
      exact hdvd
  have hsame : a = κ := by
    have h3 := column_inj hin hκ (by rw [hown]; exact hdvd)
    rw [hown] at h3
    exact Prod.ext hlevel.symm (Prod.ext hrow h3)
  refine ⟨hin, ?_⟩
  rw [← hsame] at hcol
  have h3 : moved N east k (ancestor key) = moved N east k a := by linarith
  unfold moved at h3
  have hN' : (N : ℤ) ≠ 0 := by omega
  exact mul_left_cancel₀ hN' (by linarith)

/-- Inside, a longitude is not taken back. -/
theorem wraps_zero {x : ℚ} (h1 : western N ≤ ⌊x / (360 / N : ℚ)⌋)
    (h2 : ⌊x / (360 / N : ℚ)⌋ < eastern N) : wraps (360 / N) 0 x = 0 := by
  have hhalf := floor_half x (360 / N)
  rw [show (360 / N / 2 : ℚ) = 180 / N by ring] at hhalf
  rw [wraps_eq hN]
  unfold western at h1
  unfold eastern at h2
  apply Int.ediv_eq_zero_of_lt
  · omega
  · omega

/-! ## Positions -/

theorem floor_east : ⌊180 / (360 / N : ℚ)⌋ = eastern N := by
  have h : 180 / (360 / N : ℚ) = (N : ℤ) / ((2 : ℕ) : ℚ) := by
    push_cast
    field_simp
    norm_num
  rw [h, Int.floor_div_natCast, Int.floor_intCast]
  rfl

theorem floor_west : ⌊-180 / (360 / N : ℚ)⌋ = western N - 1 := by
  have h : -180 / (360 / N : ℚ) = ((-N : ℤ) : ℚ) / ((2 : ℕ) : ℚ) := by
    push_cast
    field_simp
    norm_num
  rw [h, Int.floor_div_natCast, Int.floor_intCast]
  unfold western
  omega

theorem column_mem {x : ℚ} (h1 : -180 ≤ x) (h2 : x ≤ 180) :
    western N - 1 ≤ ⌊x / (360 / N : ℚ)⌋ ∧ ⌊x / (360 / N : ℚ)⌋ ≤ eastern N := by
  have hs : (0 : ℚ) < 360 / N := by positivity
  constructor
  · rw [← floor_west hN]
    exact Int.floor_mono ((div_le_div_iff_of_pos_right hs).2 h1)
  · rw [← floor_east hN]
    exact Int.floor_mono ((div_le_div_iff_of_pos_right hs).2 h2)

/-- The cell of level 0 of a position, as far as the cast is concerned. -/
theorem gridAt_position (p : Position) :
    (western N - 1 ≤ (gridAt (360 / N) 0 p.point).2.2 ∧
      (gridAt (360 / N) 0 p.point).2.2 ≤ eastern N) ∧
    -(N + 4 : ℤ) < 4 * (gridAt (360 / N) 0 p.point).2.1 ∧
      4 * (gridAt (360 / N) 0 p.point).2.1 ≤ N := by
  obtain ⟨⟨h1, h2⟩, h3, h4⟩ := p.bounds
  have hs : (0 : ℚ) < 360 / N := by positivity
  unfold gridAt Position.point
  simp only [cellSize_zero]
  refine ⟨column_mem hN h3 h4, ?_, ?_⟩
  · have h5 := Int.sub_one_lt_floor (p.lat / (360 / N))
    have h6 : -(N / 4 : ℚ) ≤ p.lat / (360 / N) := by
      rw [le_div_iff₀ hs]
      field_simp
      linarith
    have h7 : -((N : ℚ) + 4) < 4 * (⌊p.lat / (360 / N : ℚ)⌋ : ℚ) := by linarith
    exact_mod_cast h7
  · have h5 := Int.floor_le (p.lat / (360 / N))
    have h6 : p.lat / (360 / N) ≤ N / 4 := by
      rw [div_le_iff₀ hs]
      field_simp
      linarith
    have h7 : 4 * (⌊p.lat / (360 / N : ℚ)⌋ : ℚ) ≤ N := by linarith
    exact_mod_cast h7

end

end

end Router

end Mlatd
