/-
  The smoothing filter (track.rs, update) on a straight track, over exact arithmetic.

  The fixes are exact and come at one pace. What the filter is off by, in place and in speed, is
  then moved by a linear map of the plane that depends on the gain only (`pull`). Under one error
  estimate the gain is one gain from the fifth fix on, its map has no real eigenvalues and the
  determinant `1 - alpha`: every filter settles on the track (`smoothed_settles`). Under changing
  error estimates it need not: with every eighth fix tight the maps of one period together push
  the filter away from the track, farther each time (`smoothed_diverges`).
-/
import Mlatd.Lib.PlaneMap
import Mlatd.Tracks.Smoothing

namespace Mlatd

/-! ## The track -/

/-- A straight track in degrees, as the filter sees it, with a fix every `h` seconds. -/
structure StraightTrack where
  start : Geodetic ℝ
  /-- deg/s -/
  vlat : ℝ
  vlon : ℝ
  t0 : ℝ
  h : ℝ
  paced : (0.05 : ℝ) < h ∧ h ≤ 30.0

namespace StraightTrack

variable (T : StraightTrack)

def time (k : ℕ) : ℝ := T.t0 + k * T.h

/-- The fix number `k`. -/
def fix (k : ℕ) : Geodetic ℝ :=
  { latDeg := T.start.latDeg + T.vlat * (k * T.h)
    lonDeg := T.start.lonDeg + T.vlon * (k * T.h)
    altM := T.start.altM }

/-- The filter after fix number `k`, fed from fix 1 on with the error estimates `err`. -/
noncomputable def filtered (f : TrackFilter ℝ) (err : ℕ → ℝ) : ℕ → TrackFilter ℝ
  | 0 => f
  | k + 1 => ((filtered f err k).update (T.fix (k + 1)) (T.time (k + 1)) (err k)).1

/-- The smoothed position of fix number `k + 1`. -/
noncomputable def smoothedAt (f : TrackFilter ℝ) (err : ℕ → ℝ) (k : ℕ) : Geodetic ℝ :=
  ((T.filtered f err k).update (T.fix (k + 1)) (T.time (k + 1)) (err k)).2

/-- How far a filter is off in latitude after fix number `k`, and by how much more the next
    prediction will be. -/
noncomputable def offLat (k : ℕ) (f : TrackFilter ℝ) : ℝ × ℝ :=
  (f.lat - (T.fix k).latDeg, (f.vlat - T.vlat) * T.h)

noncomputable def offLon (k : ℕ) (f : TrackFilter ℝ) : ℝ × ℝ :=
  (f.lon - (T.fix k).lonDeg, (f.vlon - T.vlon) * T.h)

end StraightTrack

/-! ## One update -/

/-- What an update with the gain `alpha` does to these. -/
noncomputable def pull (alpha : ℝ) : PlaneMap ℝ where
  a := 1 - alpha
  b := 1 - alpha
  c := -(alpha * alpha / (2.0 - alpha))
  d := 1 - alpha * alpha / (2.0 - alpha)

theorem pull_det (alpha : ℝ) : (pull alpha).det = 1 - alpha := by
  unfold PlaneMap.det pull
  ring

/-- No gain makes real eigenvalues. -/
theorem pull_trace {alpha : ℝ} (h0 : 0 < alpha) (h1 : alpha < 1) :
    (pull alpha).trace ^ 2 < 4 * (pull alpha).det := by
  have h2 : (2.0 : ℝ) = 2 := by norm_num
  have hpos : 0 < 2 - alpha := by linarith
  have htrace : (pull alpha).trace = 2 - 2 * alpha / (2 - alpha) := by
    unfold PlaneMap.trace pull
    rw [h2]
    field_simp
    ring
  have hgap : 4 * (1 - alpha) - (2 - 2 * alpha / (2 - alpha)) ^ 2 =
      4 * alpha ^ 2 * (1 - alpha) / (2 - alpha) ^ 2 := by
    field_simp
    ring
  have hgappos : 0 < 4 * alpha ^ 2 * (1 - alpha) / (2 - alpha) ^ 2 :=
    div_pos (mul_pos (by positivity) (by linarith)) (by positivity)
  rw [htrace, pull_det]
  linarith

/-- One coordinate of an update on the track. -/
theorem pull_apply (alpha x v p vt : ℝ) {h : ℝ} (hh : h ≠ 0) :
    (x + v * h + alpha * (p + vt * h - (x + v * h)) - (p + vt * h),
      (v + alpha * alpha / (2.0 - alpha) * (p + vt * h - (x + v * h)) / h - vt) * h) =
      (pull alpha).apply (x - p, (v - vt) * h) := by
  unfold pull PlaneMap.apply
  refine Prod.ext ?_ ?_
  · simp only
    ring
  · simp only
    field_simp
    ring

namespace StraightTrack

variable {T : StraightTrack} {f : TrackFilter ℝ}

theorem h_pos (T : StraightTrack) : 0 < T.h := lt_trans (by norm_num) T.paced.1

theorem coast_eq (T : StraightTrack) {k : ℕ} (h : f.lastT = T.time k) :
    f.coast (T.time (k + 1)) = T.h := by
  have hdt : T.time (k + 1) - f.lastT = T.h := by
    rw [h]
    unfold time
    push_cast
    ring
  have h0 : (0.0 : ℝ) ≤ T.h := by
    norm_num
    exact T.h_pos.le
  unfold TrackFilter.coast
  rw [hdt]
  show max (0.0 : ℝ) (min T.h 30.0) = T.h
  rw [min_eq_left T.paced.2, max_eq_right h0]

theorem fix_succ_latDeg (T : StraightTrack) (k : ℕ) :
    (T.fix (k + 1)).latDeg = (T.fix k).latDeg + T.vlat * T.h := by
  unfold fix
  push_cast
  ring

theorem fix_succ_lonDeg (T : StraightTrack) (k : ℕ) :
    (T.fix (k + 1)).lonDeg = (T.fix k).lonDeg + T.vlon * T.h := by
  unfold fix
  push_cast
  ring

/-- An update moves both errors by the map of its gain. -/
theorem update_off (T : StraightTrack) {k : ℕ} (hf : f.lastT = T.time k) (err : ℝ) :
    T.offLat (k + 1) (f.update (T.fix (k + 1)) (T.time (k + 1)) err).1 =
        (pull (gain f.n err)).apply (T.offLat k f) ∧
      T.offLon (k + 1) (f.update (T.fix (k + 1)) (T.time (k + 1)) err).1 =
        (pull (gain f.n err)).apply (T.offLon k f) := by
  have hcoast := T.coast_eq hf
  have hvlat : (f.update (T.fix (k + 1)) (T.time (k + 1)) err).1.vlat =
      if (0.05 : ℝ) < f.coast (T.time (k + 1)) then
        f.vlat + gain f.n err * gain f.n err / (2.0 - gain f.n err) *
          ((T.fix (k + 1)).latDeg - (f.lat + f.vlat * f.coast (T.time (k + 1)))) /
            f.coast (T.time (k + 1))
      else f.vlat := rfl
  have hlat : (f.update (T.fix (k + 1)) (T.time (k + 1)) err).1.lat =
      f.lat + f.vlat * f.coast (T.time (k + 1)) + gain f.n err *
        ((T.fix (k + 1)).latDeg - (f.lat + f.vlat * f.coast (T.time (k + 1)))) := rfl
  have hlon : (f.update (T.fix (k + 1)) (T.time (k + 1)) err).1.lon =
      f.lon + f.vlon * f.coast (T.time (k + 1)) + gain f.n err *
        ((T.fix (k + 1)).lonDeg - (f.lon + f.vlon * f.coast (T.time (k + 1)))) := rfl
  have hvlon := f.update_vlon (T.fix (k + 1)) (T.time (k + 1)) err
  rw [hcoast] at hlat hlon hvlat hvlon
  rw [if_pos T.paced.1] at hvlat hvlon
  unfold offLat offLon
  rw [hlat, hvlat, hlon, hvlon, T.fix_succ_latDeg, T.fix_succ_lonDeg]
  exact ⟨pull_apply _ _ _ _ _ T.h_pos.ne', pull_apply _ _ _ _ _ T.h_pos.ne'⟩

/-! ## A run of fixes -/

theorem filtered_n (T : StraightTrack) (f : TrackFilter ℝ) (err : ℕ → ℝ) (k : ℕ) :
    (T.filtered f err k).n = f.n + k := by
  induction k with
  | zero => rfl
  | succ k ih =>
    show (T.filtered f err k).n + 1 = _
    rw [ih, Nat.add_assoc]

theorem filtered_lastT (hf : f.lastT = T.t0) (err : ℕ → ℝ) (k : ℕ) :
    (T.filtered f err k).lastT = T.time k := by
  cases k with
  | zero =>
    unfold time
    rw [Nat.cast_zero, zero_mul, add_zero]
    exact hf
  | succ k => rfl

theorem filtered_off (hf : f.lastT = T.t0) (err : ℕ → ℝ) (k : ℕ) :
    T.offLat (k + 1) (T.filtered f err (k + 1)) =
        (pull (gain (f.n + k) (err k))).apply (T.offLat k (T.filtered f err k)) ∧
      T.offLon (k + 1) (T.filtered f err (k + 1)) =
        (pull (gain (f.n + k) (err k))).apply (T.offLon k (T.filtered f err k)) := by
  have h := T.update_off (filtered_lastT hf err k) (err k)
  rw [filtered_n] at h
  exact h

/-! ## One error estimate -/

theorem gain_old {n : ℕ} (hn : 5 ≤ n) (e : ℝ) : gain n e = gain 5 e ∧ 0.15 ≤ gain 5 e := by
  have hle (x : ℝ) : (0.15 : ℝ) ≤ max (0.15 : ℝ) (min x 0.8) := le_max_left _ _
  unfold gain
  simp only
  rw [if_neg (by omega), if_neg (by omega)]
  exact ⟨rfl, hle _⟩

/-- An orbit of one gain dies out, whatever came before its fifth point. -/
theorem exists_decay {alpha : ℝ} (h0 : 0.15 ≤ alpha) (h1 : alpha < 1) {off : ℕ → ℝ × ℝ}
    (h : ∀ k, 5 ≤ k → off (k + 1) = (pull alpha).apply (off k)) :
    ∃ C, ∀ k, (off k).1 ^ 2 ≤ C * 0.85 ^ k := by
  have hpos : 0 < alpha := lt_of_lt_of_le (by norm_num) h0
  have horbit (j : ℕ) : off (5 + j) = (pull alpha).apply^[j] (off 5) := by
    induction j with
    | zero => rfl
    | succ j ih => rw [← Nat.add_assoc, h (5 + j) (by omega), ih, Function.iterate_succ_apply']
  obtain ⟨D, hD⟩ : ∃ D, ∀ j, (off (5 + j)).1 ^ 2 ≤ (1 - alpha) ^ j * D := by
    refine ⟨4 * (pull alpha).energy (off 5) / (4 * (pull alpha).det - (pull alpha).trace ^ 2),
      fun j => ?_⟩
    rw [horbit, ← pull_det]
    exact PlaneMap.sq_fst_iterate_le (pull_trace hpos h1) (off 5) j
  have hD0 : 0 ≤ D := by
    have h2 := (sq_nonneg (off 5).1).trans (hD 0)
    rwa [pow_zero, one_mul] at h2
  have hsum : 0 ≤ ∑ i ∈ Finset.range 5, (off i).1 ^ 2 :=
    Finset.sum_nonneg fun i _ => sq_nonneg _
  refine ⟨(D + ∑ i ∈ Finset.range 5, (off i).1 ^ 2) / 0.85 ^ 5, fun k => ?_⟩
  rcases Nat.lt_or_ge k 5 with hk | hk
  · have hterm : (off k).1 ^ 2 ≤ ∑ i ∈ Finset.range 5, (off i).1 ^ 2 :=
      Finset.single_le_sum (f := fun i => (off i).1 ^ 2) (fun i _ => sq_nonneg _)
        (Finset.mem_range.2 hk)
    have hpow : (0.85 : ℝ) ^ 5 ≤ 0.85 ^ k :=
      pow_le_pow_of_le_one (by norm_num) (by norm_num) hk.le
    rw [div_mul_eq_mul_div, le_div_iff₀ (by norm_num)]
    exact mul_le_mul (by linarith) hpow (by norm_num) (by linarith)
  · obtain ⟨j, rfl⟩ := Nat.exists_eq_add_of_le hk
    have hpow : (1 - alpha) ^ j ≤ 0.85 ^ j :=
      pow_le_pow_left₀ (by linarith) (by linarith) j
    rw [pow_add, ← mul_assoc, div_mul_cancel₀ _ (by norm_num)]
    calc (off (5 + j)).1 ^ 2 ≤ (1 - alpha) ^ j * D := hD j
      _ ≤ 0.85 ^ j * D := mul_le_mul_of_nonneg_right hpow hD0
      _ ≤ _ := by
        rw [mul_comm]
        exact mul_le_mul_of_nonneg_right (by linarith) (by positivity)

/-- **Under one error estimate every filter settles on a straight track.** Wherever it starts and
    however fast, its squared error in latitude and in longitude falls by a seventh with every fix,
    up to a constant. -/
theorem smoothed_settles (T : StraightTrack) {f : TrackFilter ℝ} (hf : f.lastT = T.t0) (e : ℝ) :
    ∃ C, ∀ k,
      ((T.smoothedAt f (fun _ => e) k).latDeg - (T.fix (k + 1)).latDeg) ^ 2 ≤ C * 0.85 ^ k ∧
      ((T.smoothedAt f (fun _ => e) k).lonDeg - (T.fix (k + 1)).lonDeg) ^ 2 ≤ C * 0.85 ^ k := by
  have hgain (k : ℕ) (hk : 5 ≤ k) : gain (f.n + k) e = gain 5 e :=
    (gain_old (hk.trans (Nat.le_add_left k f.n)) e).1
  have h15 := (gain_old le_rfl e).2
  have h1 := (gain_mem 5 e).2
  have hoff (k : ℕ) := filtered_off hf (fun _ => e) k
  obtain ⟨A, hA⟩ : ∃ A, ∀ k, (T.offLat k (T.filtered f (fun _ => e) k)).1 ^ 2 ≤ A * 0.85 ^ k :=
    exists_decay h15 h1 fun k hk => hgain k hk ▸ (hoff k).1
  obtain ⟨B, hB⟩ : ∃ B, ∀ k, (T.offLon k (T.filtered f (fun _ => e) k)).1 ^ 2 ≤ B * 0.85 ^ k :=
    exists_decay h15 h1 fun k hk => hgain k hk ▸ (hoff k).2
  refine ⟨max A B * 0.85, fun k => ?_⟩
  have hpow : (0 : ℝ) ≤ 0.85 ^ (k + 1) := by positivity
  have hA' := mul_le_mul_of_nonneg_right (le_max_left A B) hpow
  have hB' := mul_le_mul_of_nonneg_right (le_max_right A B) hpow
  rw [mul_assoc, ← pow_succ']
  exact ⟨(hA (k + 1)).trans hA', (hB (k + 1)).trans hB'⟩

theorem northbound_paced : (0.05 : ℝ) < 1.0 ∧ (1.0 : ℝ) ≤ 30.0 := by norm_num

/-- The track of the test beside the filter: a thousandth of a degree north every second. -/
noncomputable def northbound : StraightTrack where
  start := { latDeg := 47.0, lonDeg := -1.5, altM := 6000.0 }
  vlat := 0.001
  vlon := 0.0
  t0 := 0.0
  h := 1.0
  paced := northbound_paced

theorem smoothed_settles_northbound :
    (TrackFilter.new (northbound.fix 0) northbound.t0).lastT = northbound.t0 ∧
      ∃ C, ∀ k,
        ((northbound.smoothedAt (TrackFilter.new (northbound.fix 0) northbound.t0)
            (fun _ => 100.0) k).latDeg - (northbound.fix (k + 1)).latDeg) ^ 2 ≤ C * 0.85 ^ k ∧
        ((northbound.smoothedAt (TrackFilter.new (northbound.fix 0) northbound.t0)
            (fun _ => 100.0) k).lonDeg - (northbound.fix (k + 1)).lonDeg) ^ 2 ≤ C * 0.85 ^ k :=
  ⟨rfl, northbound.smoothed_settles rfl 100.0⟩

/-! ## Every eighth fix tight -/

/-- The error estimates of the updates: seven loose fixes, then a tight one. -/
noncomputable def everyEighth (k : ℕ) : ℝ := if k % 8 = 7 then 40.0 else 300.0

theorem gain_young {n : ℕ} (hn : n < 5) : gain n 300.0 = 0.5 := by
  unfold gain F64.clamp
  simp only
  rw [if_pos hn]
  show max (max (0.15 : ℝ) (min (40.0 / max 300.0 30.0) 0.8)) 0.5 = 0.5
  norm_num

theorem gain_loose {n : ℕ} (hn : 5 ≤ n) : gain n 300.0 = 0.15 := by
  unfold gain
  simp only
  rw [if_neg (by omega)]
  show max (0.15 : ℝ) (min (40.0 / max 300.0 30.0) 0.8) = 0.15
  norm_num

theorem gain_tight {n : ℕ} (hn : 5 ≤ n) : gain n 40.0 = 0.8 := by
  unfold gain
  simp only
  rw [if_neg (by omega)]
  show max (0.15 : ℝ) (min (40.0 / max 40.0 30.0) 0.8) = 0.8
  norm_num

/-- The eight updates of a period, from the fifth update on: three loose ones, the tight one, four
    loose ones. -/
noncomputable def period : PlaneMap ℝ :=
  let loose := (pull 0.15).comp (pull 0.15)
  loose.comp (loose.comp ((pull 0.8).comp ((pull 0.15).comp loose)))

theorem period_apply (v : ℝ × ℝ) :
    period.apply v = (pull 0.15).apply ((pull 0.15).apply ((pull 0.15).apply ((pull 0.15).apply
      ((pull 0.8).apply ((pull 0.15).apply ((pull 0.15).apply ((pull 0.15).apply v))))))) := by
  unfold period
  simp only [PlaneMap.comp_apply]

/-- A tight fix taken with a speed that loose ones have left behind: the trace outweighs one. -/
theorem period_trace : (1.4 : ℝ) + |period.det| ≤ |period.trace| := by
  have hdet : period.det = 0.2 * 0.85 ^ 7 := by
    unfold period
    simp only [PlaneMap.det_comp, pull_det]
    norm_num
  have htrace : period.trace ≤ -1.4644 := by
    unfold period PlaneMap.trace PlaneMap.comp pull
    norm_num
  rw [hdet, abs_of_nonneg (by norm_num), abs_of_nonpos (htrace.trans (by norm_num))]
  refine le_trans ?_ (neg_le_neg htrace)
  norm_num

section
variable (T)

/-- The error in latitude of a young filter fed so, after fix number `k`. -/
noncomputable def offEighth (k : ℕ) : ℝ × ℝ :=
  T.offLat k (T.filtered (TrackFilter.new (T.fix 0) T.t0) everyEighth k)

theorem offEighth_succ (k : ℕ) :
    T.offEighth (k + 1) = (pull (gain (1 + k) (everyEighth k))).apply (T.offEighth k) :=
  (filtered_off rfl everyEighth k).1

theorem offEighth_young {k : ℕ} (hk : k < 4) :
    T.offEighth (k + 1) = (pull 0.5).apply (T.offEighth k) := by
  rw [offEighth_succ, everyEighth, if_neg (by omega), gain_young (by omega)]

theorem offEighth_loose {k : ℕ} (hk : 4 ≤ k) (h8 : k % 8 ≠ 7) :
    T.offEighth (k + 1) = (pull 0.15).apply (T.offEighth k) := by
  rw [offEighth_succ, everyEighth, if_neg h8, gain_loose (by omega)]

theorem offEighth_tight {k : ℕ} (h8 : k % 8 = 7) :
    T.offEighth (k + 1) = (pull 0.8).apply (T.offEighth k) := by
  rw [offEighth_succ, everyEighth, if_pos h8, gain_tight (by omega)]

theorem offEighth_zero : T.offEighth 0 = (0, -(T.vlat * T.h)) := by
  refine Prod.ext (sub_self _) ?_
  show ((0.0 : ℝ) - T.vlat) * T.h = _
  norm_num

/-- What the first four updates leave: half of one step of the track. -/
theorem offEighth_four :
    T.offEighth 4 = (14 / 27 * -(T.vlat * T.h), 73 / 324 * -(T.vlat * T.h)) := by
  have hmap : pull 0.5 = ⟨1 / 2, 1 / 2, -(1 / 6), 5 / 6⟩ := by
    unfold pull
    norm_num
  rw [T.offEighth_young (by omega), T.offEighth_young (by omega), T.offEighth_young (by omega),
    T.offEighth_young (by omega), offEighth_zero, hmap]
  unfold PlaneMap.apply
  refine Prod.ext ?_ ?_
  · simp only
    ring
  · simp only
    ring

theorem abs_offEighth_four : |(T.offEighth 4).1| = 14 / 27 * |T.vlat * T.h| := by
  rw [offEighth_four, abs_mul, abs_neg]
  norm_num

theorem offEighth_period (k : ℕ) :
    T.offEighth (4 + 8 * (k + 1)) = period.apply (T.offEighth (4 + 8 * k)) := by
  rw [period_apply, show 4 + 8 * (k + 1) = 4 + 8 * k + 1 + 1 + 1 + 1 + 1 + 1 + 1 + 1 by omega,
    T.offEighth_loose (by omega) (by omega), T.offEighth_loose (by omega) (by omega),
    T.offEighth_loose (by omega) (by omega), T.offEighth_loose (by omega) (by omega),
    T.offEighth_tight (by omega), T.offEighth_loose (by omega) (by omega),
    T.offEighth_loose (by omega) (by omega), T.offEighth_loose (by omega) (by omega)]

theorem offEighth_iterate (k : ℕ) :
    T.offEighth (4 + 8 * k) = period.apply^[k] (T.offEighth 4) := by
  induction k with
  | zero => rfl
  | succ k ih => rw [offEighth_period, ih, Function.iterate_succ_apply']

/-- The first period does not bring the filter nearer. -/
theorem period_first :
    |(T.offEighth 4).1| ≤ |(period.apply (T.offEighth 4)).1| ∧
      0.7 * |T.vlat * T.h| ≤ |(period.apply (T.offEighth 4)).1| := by
  have hscale : ∃ c : ℝ, (period.apply (T.offEighth 4)).1 = c * (T.vlat * T.h) ∧ 0.77 ≤ c := by
    refine ⟨-(14 / 27 * period.a + 73 / 324 * period.b), ?_, ?_⟩
    · rw [offEighth_four]
      unfold PlaneMap.apply
      simp only
      ring
    · unfold period PlaneMap.comp pull
      norm_num
  obtain ⟨c, hc, hc77⟩ := hscale
  have hsize : |(period.apply (T.offEighth 4)).1| = c * |T.vlat * T.h| := by
    rw [hc, abs_mul, abs_of_nonneg (le_trans (by norm_num) hc77)]
  rw [hsize, abs_offEighth_four]
  constructor
  · exact mul_le_mul_of_nonneg_right (le_trans (by norm_num) hc77) (abs_nonneg _)
  · exact mul_le_mul_of_nonneg_right (le_trans (by norm_num) hc77) (abs_nonneg _)

end

/-- **Under changing error estimates the filter need not settle, on exact fixes.** With every
    eighth fix tight and the others loose the error in latitude grows by two fifths with every
    period, without bound, on every track that moves in latitude. -/
theorem smoothed_diverges (T : StraightTrack) (hv : T.vlat ≠ 0) :
    0 < |T.vlat * T.h| ∧ ∀ k,
      0.5 * |T.vlat * T.h| * 1.4 ^ k ≤
        |(T.smoothedAt (TrackFilter.new (T.fix 0) T.t0) everyEighth (3 + 8 * k)).latDeg -
          (T.fix (3 + 8 * k + 1)).latDeg| := by
  refine ⟨abs_pos.2 (mul_ne_zero hv T.h_pos.ne'), fun k => ?_⟩
  have hoff : (T.smoothedAt (TrackFilter.new (T.fix 0) T.t0) everyEighth (3 + 8 * k)).latDeg -
      (T.fix (3 + 8 * k + 1)).latDeg = (T.offEighth (3 + 8 * k + 1)).1 := rfl
  rw [hoff, show 3 + 8 * k + 1 = 4 + 8 * k by omega, offEighth_iterate]
  obtain ⟨hgrow, hfirst⟩ := T.period_first
  cases k with
  | zero =>
    show _ ≤ |(T.offEighth 4).1|
    rw [abs_offEighth_four, pow_zero, mul_one]
    exact mul_le_mul_of_nonneg_right (by norm_num) (abs_nonneg _)
  | succ k =>
    have hrun := (PlaneMap.abs_fst_iterate_ge (by norm_num) period_trace hgrow k).1
    have hpow : (0 : ℝ) ≤ 1.4 ^ k := by positivity
    calc 0.5 * |T.vlat * T.h| * 1.4 ^ (k + 1) = 1.4 ^ k * (0.7 * |T.vlat * T.h|) := by ring
      _ ≤ 1.4 ^ k * |(period.apply (T.offEighth 4)).1| := mul_le_mul_of_nonneg_left hfirst hpow
      _ ≤ _ := hrun

theorem smoothed_diverges_northbound :
    northbound.vlat ≠ 0 ∧ 0 < |northbound.vlat * northbound.h| ∧ ∀ k,
      0.5 * |northbound.vlat * northbound.h| * 1.4 ^ k ≤
        |(northbound.smoothedAt (TrackFilter.new (northbound.fix 0) northbound.t0) everyEighth
            (3 + 8 * k)).latDeg - (northbound.fix (3 + 8 * k + 1)).latDeg| := by
  have hv : northbound.vlat ≠ 0 := by
    show (0.001 : ℝ) ≠ 0
    norm_num
  exact ⟨hv, northbound.smoothed_diverges hv⟩

end StraightTrack

end Mlatd
