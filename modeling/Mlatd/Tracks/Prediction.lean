/-
  The track's prediction, in exact arithmetic (state.rs, track_prediction, four_rx_consistent).

  `predictFixes_eq` takes the two modes apart: which one is used depends on the fixes alone
  (`LineUsed`), and both move with the time of the prediction only. From it, `gate_widens`: the
  gate of a later prediction is at least as wide; and `prediction_exact`: the fixes of a uniform
  motion predict that motion, also across the antimeridian.
-/
import Mlatd.Lib.Exact
import Mlatd.Lib.LineFit
import Mlatd.State.Cluster

namespace Mlatd

/-! ## The two modes -/

section
variable (fixes : List (Fix ℝ)) (last : Fix ℝ)

/-- `1 / σ²`, the error floored. -/
noncomputable def fitWeight (f : Fix ℝ) : ℝ := 1.0 / F64.sq (F64.max f.errM 100.0)

/-- The fixes that are fitted. -/
noncomputable def fitWindow : List (Fix ℝ) :=
  fixes.filter fun f => decide (last.t - f.t ≤ fitWindowS)

/-- Metres to a degree of latitude. -/
noncomputable def mLat : ℝ := 111320.0

/-- Metres to a degree of longitude at the last fix. -/
noncomputable def mLon : ℝ := mLat * F64.max (F64.cos (F64.toRadians last.pos.latDeg)) 0.05

noncomputable def eastM (f : Fix ℝ) : ℝ := shortWay (f.pos.lonDeg - last.pos.lonDeg) * mLon last

noncomputable def northM (f : Fix ℝ) : ℝ := (f.pos.latDeg - last.pos.latDeg) * mLat

noncomputable def fitSw : ℝ := LineFit.total fitWeight (fitWindow fixes last)

noncomputable def fitMid : ℝ := LineFit.mid fitWeight Fix.t (fitWindow fixes last)

noncomputable def fitSxx : ℝ := LineFit.spread fitWeight Fix.t (fitWindow fixes last)

noncomputable def fitVe : ℝ := LineFit.slope fitWeight Fix.t (eastM last) (fitWindow fixes last)

noncomputable def fitVn : ℝ := LineFit.slope fitWeight Fix.t (northM last) (fitWindow fixes last)

/-- The fixes of the window span enough time to read a velocity from. -/
def SpanEnough : Prop :=
  ∃ first, (fitWindow fixes last).head? = some first ∧ fitMinSpanS ≤ last.t - first.t

/-- The line is used: there is a velocity, and it is an aircraft's. -/
def LineUsed : Prop :=
  SpanEnough fixes last ∧ F64.hypot (fitVe fixes last) (fitVn fixes last) ≤ maxSpeedMps

/-- What can be reached from the last fix. -/
noncomputable def reachableAt (altM now : ℝ) : Prediction ℝ :=
  { pos := { last.pos with altM := altM }
    reachM := maxSpeedMps * (now - last.t)
    sigmaM := last.errM }

/-- The fitted line at a time. -/
noncomputable def lineAt (altM now : ℝ) : Prediction ℝ :=
  { pos :=
      { latDeg := last.pos.latDeg +
          LineFit.fitAt fitWeight Fix.t (northM last) (fitWindow fixes last) now / mLat
        lonDeg := F64.remEuclid (last.pos.lonDeg +
          LineFit.fitAt fitWeight Fix.t (eastM last) (fitWindow fixes last) now / mLon last +
            540.0) 360.0 - 180.0
        altM := altM }
    reachM := 0.5 * maxAccelMps2 * (now - fitMid fixes last) * (now - fitMid fixes last)
    sigmaM := F64.sqrt (1.0 / fitSw fixes last +
      (now - fitMid fixes last) * (now - fitMid fixes last) / fitSxx fixes last) }

end

theorem trackPrediction_eq (s : State ℝ) {icao : Icao} {log : AcLog ℝ}
    (hlog : s.acLog.lookup icao = some log) (altM now : ℝ) :
    s.trackPrediction icao altM now = predictFixes log.fixes altM now := by
  rw [State.trackPrediction, hlog]
  rfl

theorem fitWeight_pos (f : Fix ℝ) : 0 < fitWeight f := by
  have hfloor : (0 : ℝ) < F64.max f.errM 100.0 :=
    lt_of_lt_of_le (by norm_num) (le_max_right f.errM 100.0)
  exact div_pos (by norm_num) (mul_pos hfloor hfloor)

section
variable {fixes : List (Fix ℝ)} {last : Fix ℝ} (hlast : fixes.getLast? = some last)
include hlast

theorem last_mem_fitWindow : last ∈ fitWindow fixes last := by
  refine List.mem_filter.2 ⟨List.mem_of_getLast? hlast, decide_eq_true ?_⟩
  rw [sub_self]
  norm_num [fitWindowS]

theorem fitWindow_ne_nil : fitWindow fixes last ≠ [] :=
  List.ne_nil_of_mem (last_mem_fitWindow hlast)

open Classical in
/-- The prediction from the last fix on, until the track goes stale. -/
theorem predictFixes_eq (altM : ℝ) {now : ℝ} (h1 : last.t ≤ now)
    (h2 : now < last.t + trackStaleS) : predictFixes fixes altM now = some
      (if LineUsed fixes last then lineAt fixes last altM now else reachableAt last altM now) := by
  obtain ⟨first, hfirst⟩ : ∃ first, (fitWindow fixes last).head? = some first :=
    Option.isSome_iff_exists.1 (List.isSome_head?.2 (fitWindow_ne_nil hlast))
  have hzero : (0.0 : ℝ) = 0 := by norm_num
  have hnow : ¬ ¬ ((0.0 : ℝ) ≤ now - last.t ∧ now - last.t < trackStaleS) := by
    rw [not_not, hzero]
    exact ⟨by linarith, by linarith⟩
  unfold predictFixes
  rw [hlast]
  simp only
  rw [if_neg hnow]
  have hwindow : (fixes.filter fun f => decide (last.t - f.t ≤ fitWindowS)) =
      fitWindow fixes last := rfl
  rw [hwindow, hfirst]
  simp only [F64.sum_eq]
  have hline : LineUsed fixes last ↔ ¬ last.t - first.t < fitMinSpanS ∧
      ¬ maxSpeedMps < F64.hypot (fitVe fixes last) (fitVn fixes last) := by
    rw [not_lt, not_lt]
    refine and_congr_left fun _ => ⟨?_, fun h => ⟨first, hfirst, h⟩⟩
    rintro ⟨first', hfirst', h⟩
    rw [hfirst] at hfirst'
    cases hfirst'
    exact h
  by_cases hspan : last.t - first.t < fitMinSpanS
  · rw [if_pos hspan, if_neg fun h => (hline.1 h).1 hspan]
    rfl
  rw [if_neg hspan]
  by_cases hspeed : maxSpeedMps < F64.hypot (fitVe fixes last) (fitVn fixes last)
  · rw [if_neg fun h => (hline.1 h).2 hspeed]
    exact if_pos hspeed
  · rw [if_pos (hline.2 ⟨hspan, hspeed⟩)]
    exact if_neg hspeed

/-- The divisors of the fit are positive. -/
theorem fit_divisors_pos (hspan : SpanEnough fixes last) :
    0 < fitSw fixes last ∧ 0 < fitSxx fixes last := by
  obtain ⟨first, hfirst, h⟩ := hspan
  have hmem : first ∈ fitWindow fixes last := List.mem_of_head? hfirst
  have hne : first.t ≠ last.t := by
    have hmin : (0 : ℝ) < fitMinSpanS := by norm_num [fitMinSpanS]
    intro heq
    rw [heq, sub_self] at h
    linarith
  exact ⟨LineFit.total_pos (fun f _ => fitWeight_pos f) (fitWindow_ne_nil hlast),
    LineFit.spread_pos (fun f _ => fitWeight_pos f) hmem (last_mem_fitWindow hlast) hne⟩

end

/-! ## The gate -/

/-- How far from the prediction a fix of error `errM` may land. -/
noncomputable def gateRadius (errM : ℝ) (pred : Prediction ℝ) : ℝ :=
  F64.max (gateSigmas * F64.hypot errM pred.sigmaM) gateFloorM + pred.reachM

theorem fourRxConsistent_eq (pred : Prediction ℝ) (sol : Solution ℝ) :
    fourRxConsistent pred sol =
      decide (sol.pos.haversineM pred.pos ≤ gateRadius (fixErrM sol) pred) := rfl

theorem gateRadius_mono {p q : Prediction ℝ} (hreach : p.reachM ≤ q.reachM)
    (hsigma : p.sigmaM ^ 2 ≤ q.sigmaM ^ 2) (errM : ℝ) : gateRadius errM p ≤ gateRadius errM q := by
  have hhypot : F64.hypot errM p.sigmaM ≤ F64.hypot errM q.sigmaM :=
    Real.sqrt_le_sqrt (by linarith)
  have hsigmas : (0 : ℝ) ≤ gateSigmas := by norm_num [gateSigmas]
  have hmul : gateSigmas * F64.hypot errM p.sigmaM ≤ gateSigmas * F64.hypot errM q.sigmaM :=
    mul_le_mul_of_nonneg_left hhypot hsigmas
  exact add_le_add (max_le_max hmul le_rfl) hreach

/-- The reachable disc grows. -/
theorem reachable_widens {last : Fix ℝ} (altM errM : ℝ) {now1 now2 : ℝ} (h12 : now1 ≤ now2) :
    gateRadius errM (reachableAt last altM now1) ≤ gateRadius errM (reachableAt last altM now2) := by
  have hspeed : (0 : ℝ) ≤ maxSpeedMps := by norm_num [maxSpeedMps]
  have hreach : maxSpeedMps * (now1 - last.t) ≤ maxSpeedMps * (now2 - last.t) :=
    mul_le_mul_of_nonneg_left (by linarith) hspeed
  exact gateRadius_mono (p := reachableAt last altM now1) (q := reachableAt last altM now2) hreach
    le_rfl errM

/-- The interval about the line grows once it is past the line's centre. -/
theorem line_widens {fixes : List (Fix ℝ)} {last : Fix ℝ} (hsw : 0 < fitSw fixes last)
    (hsxx : 0 < fitSxx fixes last) (altM errM : ℝ) {now1 now2 : ℝ}
    (hmid : fitMid fixes last ≤ now1) (h12 : now1 ≤ now2) :
    gateRadius errM (lineAt fixes last altM now1) ≤
      gateRadius errM (lineAt fixes last altM now2) := by
  have hsq : (now1 - fitMid fixes last) * (now1 - fitMid fixes last) ≤
      (now2 - fitMid fixes last) * (now2 - fitMid fixes last) :=
    mul_self_le_mul_self (by linarith) (by linarith)
  have haccel : (0 : ℝ) ≤ 0.5 * maxAccelMps2 := by norm_num [maxAccelMps2]
  have hone : (0 : ℝ) ≤ 1.0 / fitSw fixes last := div_nonneg (by norm_num) (le_of_lt hsw)
  have hvar (now : ℝ) : 0 ≤ 1.0 / fitSw fixes last +
      (now - fitMid fixes last) * (now - fitMid fixes last) / fitSxx fixes last :=
    add_nonneg hone (div_nonneg (mul_self_nonneg _) (le_of_lt hsxx))
  refine gateRadius_mono ?_ ?_ errM
  · have hreach := mul_le_mul_of_nonneg_left hsq haccel
    rwa [← mul_assoc, ← mul_assoc] at hreach
  · have hsigma (now : ℝ) : (lineAt fixes last altM now).sigmaM ^ 2 = 1.0 / fitSw fixes last +
        (now - fitMid fixes last) * (now - fitMid fixes last) / fitSxx fixes last :=
      Real.sq_sqrt (hvar now)
    rw [hsigma, hsigma]
    exact add_le_add le_rfl (div_le_div_of_nonneg_right hsq (le_of_lt hsxx))

/-- No fix is later than the last. -/
theorem le_last {fixes : List (Fix ℝ)} {last : Fix ℝ} (hlast : fixes.getLast? = some last)
    (hsorted : fixes.Pairwise fun f g => f.t ≤ g.t) : ∀ f ∈ fixes, f.t ≤ last.t := by
  obtain ⟨init, rfl⟩ := List.getLast?_eq_some_iff.1 hlast
  intro f hf
  rcases List.mem_append.1 hf with hf | hf
  · exact (List.pairwise_append.1 hsorted).2.2 f hf last List.mem_cons_self
  · rw [List.mem_singleton.1 hf]

/-- **A refused fix never narrows the next gate.** While the track is not stale there is a
    prediction, whose gate only grows; where a line is fitted, its divisors are positive. -/
theorem gate_widens (fixes : List (Fix ℝ)) (last : Fix ℝ) (hlast : fixes.getLast? = some last)
    (hsorted : fixes.Pairwise fun f g => f.t ≤ g.t) (altM errM now1 now2 : ℝ)
    (h1 : last.t ≤ now1) (h12 : now1 ≤ now2) (h2 : now2 < last.t + trackStaleS) :
    (∃ p1 p2, predictFixes fixes altM now1 = some p1 ∧ predictFixes fixes altM now2 = some p2 ∧
      gateRadius errM p1 ≤ gateRadius errM p2 ∧
      ∀ (s : State ℝ) (icao : Icao) (log : AcLog ℝ), s.acLog.lookup icao = some log →
        log.fixes = fixes → s.trackPrediction icao altM now1 = some p1 ∧
          s.trackPrediction icao altM now2 = some p2) ∧
    (∀ (p : Prediction ℝ) (sol : Solution ℝ), fixErrM sol = errM →
      fourRxConsistent p sol = decide (sol.pos.haversineM p.pos ≤ gateRadius errM p)) ∧
    (SpanEnough fixes last → 0 < fitSw fixes last ∧ 0 < fitSxx fixes last) := by
  have hp1 := predictFixes_eq hlast altM h1 (by linarith)
  have hp2 := predictFixes_eq hlast altM (h1.trans h12) h2
  refine ⟨⟨_, _, hp1, hp2, ?_, ?_⟩, ?_, fit_divisors_pos hlast⟩
  · by_cases hline : LineUsed fixes last
    · rw [if_pos hline, if_pos hline]
      obtain ⟨hsw, hsxx⟩ := fit_divisors_pos hlast hline.1
      refine line_widens hsw hsxx altM errM (le_trans ?_ h1) h12
      exact LineFit.mid_le (fun f _ => fitWeight_pos f) (fitWindow_ne_nil hlast)
        fun f hf => le_last hlast hsorted f (List.mem_filter.1 hf).1
    · rw [if_neg hline, if_neg hline]
      exact reachable_widens altM errM h12
  · rintro s icao log hlog rfl
    exact ⟨(trackPrediction_eq s hlog altM now1).trans hp1,
      (trackPrediction_eq s hlog altM now2).trans hp2⟩
  · rintro p sol rfl
    exact fourRxConsistent_eq p sol

/-! ## Uniform motion -/

/-- A longitude in `[-180, 180)`. -/
noncomputable def normLon (x : ℝ) : ℝ := F64.remEuclid (x + 540.0) 360.0 - 180.0

theorem normLon_eq (x : ℝ) : normLon x = x - 360 * ⌊(x + 180) / 360⌋ := by
  have h540 : (540.0 : ℝ) = 540 := by norm_num
  have h180 : (180.0 : ℝ) = 180 := by norm_num
  have h360 : |(360.0 : ℝ)| = 360 := by norm_num
  have hshift : (x + 540) / 360 = (x + 180) / 360 + 1 := by ring
  have h : normLon x = x + 540.0 - |(360.0 : ℝ)| * ⌊(x + 540.0) / |(360.0 : ℝ)|⌋ - 180.0 := rfl
  rw [h, h360, h540, h180, hshift, Int.floor_add_one]
  push_cast
  ring

theorem normLon_mem (x : ℝ) : -180 ≤ normLon x ∧ normLon x < 180 := by
  have h1 := Int.floor_le ((x + 180) / 360)
  have h2 := Int.lt_floor_add_one ((x + 180) / 360)
  rw [le_div_iff₀ (by norm_num)] at h1
  rw [div_lt_iff₀ (by norm_num)] at h2
  rw [normLon_eq]
  exact ⟨by linarith, by linarith⟩

/-- Whole turns do not show. -/
theorem normLon_sub_turns (x : ℝ) (k : ℤ) : normLon (x - 360 * k) = normLon x := by
  have h : (x - 360 * k + 180) / 360 = (x + 180) / 360 - k := by ring
  rw [normLon_eq, normLon_eq, h, Int.floor_sub_intCast]
  push_cast
  ring

theorem normLon_of_mem {x : ℝ} (h1 : -180 ≤ x) (h2 : x < 180) : normLon x = x := by
  have h : ⌊(x + 180) / 360⌋ = 0 := by
    rw [Int.floor_eq_zero_iff]
    exact ⟨div_nonneg (by linarith) (by norm_num), (div_lt_one (by norm_num)).2 (by linarith)⟩
  rw [normLon_eq, h, Int.cast_zero, mul_zero, sub_zero]

/-- Adding to a longitude before or after it is taken to `[-180, 180)` is the same. -/
theorem normLon_normLon_add (x d : ℝ) : normLon (normLon x + d) = normLon (x + d) := by
  have h : normLon x + d = x + d - 360 * ⌊(x + 180) / 360⌋ := by
    rw [normLon_eq]
    ring
  rw [h, normLon_sub_turns]

/-- Two longitudes less than half a turn apart, the short way round. -/
theorem shortWay_normLon {x y : ℝ} (h : |x - y| < 180) :
    shortWay (normLon x - normLon y) = x - y := by
  have hshort (d : ℝ) : shortWay d = normLon d := rfl
  have hdiff : normLon x - normLon y =
      x - y - 360 * (⌊(x + 180) / 360⌋ - ⌊(y + 180) / 360⌋ : ℤ) := by
    rw [normLon_eq, normLon_eq]
    push_cast
    ring
  obtain ⟨h1, h2⟩ := abs_lt.1 h
  rw [hshort, hdiff, normLon_sub_turns, normLon_of_mem (le_of_lt h1) h2]

/-- The fixes of a motion whose latitude and longitude are affine in time, the longitude taken to
    `[-180, 180)`; over the whole of them it drifts by less than half a turn. -/
structure Uniform (fixes : List (Fix ℝ)) (lat0 vLat lon0 vLon : ℝ) : Prop where
  lat : ∀ f ∈ fixes, f.pos.latDeg = lat0 + vLat * f.t
  lon : ∀ f ∈ fixes, f.pos.lonDeg = normLon (lon0 + vLon * f.t)
  drift : ∀ f ∈ fixes, ∀ g ∈ fixes, |vLon * (f.t - g.t)| < 180

section
variable {fixes : List (Fix ℝ)} {last : Fix ℝ} {lat0 vLat lon0 vLon : ℝ}

theorem mLat_pos : 0 < mLat := by norm_num [mLat]

theorem mLon_pos (last : Fix ℝ) : 0 < mLon last :=
  mul_pos mLat_pos (lt_of_lt_of_le (by norm_num) (le_max_right _ (0.05 : ℝ)))

theorem mLon_le (last : Fix ℝ) : mLon last ≤ mLat := by
  have h : F64.max (F64.cos (F64.toRadians last.pos.latDeg)) (0.05 : ℝ) ≤ 1 :=
    max_le (Real.cos_le_one _) (by norm_num)
  exact (mul_le_mul_of_nonneg_left h (le_of_lt mLat_pos)).trans_eq (mul_one mLat)

/-- East of the last fix, the motion is on a line. -/
theorem Uniform.eastM_eq (h : Uniform fixes lat0 vLat lon0 vLon) (hlast : last ∈ fixes) {f : Fix ℝ}
    (hf : f ∈ fixes) :
    eastM last f = -(vLon * last.t * mLon last) + vLon * mLon last * f.t := by
  have hdiff : lon0 + vLon * f.t - (lon0 + vLon * last.t) = vLon * (f.t - last.t) := by ring
  have hclose : |lon0 + vLon * f.t - (lon0 + vLon * last.t)| < 180 := by
    rw [hdiff]
    exact h.drift f hf last hlast
  rw [eastM, h.lon f hf, h.lon last hlast, shortWay_normLon hclose]
  ring

theorem Uniform.northM_eq (h : Uniform fixes lat0 vLat lon0 vLon) (hlast : last ∈ fixes)
    {f : Fix ℝ} (hf : f ∈ fixes) :
    northM last f = -(vLat * last.t * mLat) + vLat * mLat * f.t := by
  rw [northM, h.lat f hf, h.lat last hlast]
  ring

/-- The fitted velocity is the motion's. -/
theorem Uniform.fitted_velocity (h : Uniform fixes lat0 vLat lon0 vLon)
    (hlast : fixes.getLast? = some last) (hspan : SpanEnough fixes last) :
    fitVe fixes last = vLon * mLon last ∧ fitVn fixes last = vLat * mLat := by
  have hmem : last ∈ fixes := List.mem_of_getLast? hlast
  obtain ⟨hsw, hsxx⟩ := fit_divisors_pos hlast hspan
  exact ⟨LineFit.slope_of_line hsw.ne' hsxx.ne'
      fun f hf => h.eastM_eq hmem (List.mem_filter.1 hf).1,
    LineFit.slope_of_line hsw.ne' hsxx.ne' fun f hf => h.northM_eq hmem (List.mem_filter.1 hf).1⟩

/-- **The line fit is exact on uniform motion**, whatever the errors and the number of the fixes,
    also across the antimeridian. -/
theorem prediction_exact (fixes : List (Fix ℝ)) (last : Fix ℝ)
    (hlast : fixes.getLast? = some last) (lat0 vLat lon0 vLon : ℝ)
    (huniform : Uniform fixes lat0 vLat lon0 vLon) (hspan : SpanEnough fixes last)
    (hspeed : F64.hypot (fitVe fixes last) (fitVn fixes last) ≤ maxSpeedMps) (altM now : ℝ)
    (h1 : last.t ≤ now) (h2 : now < last.t + trackStaleS) :
    ∃ p, predictFixes fixes altM now = some p ∧
      p.pos.latDeg = lat0 + vLat * now ∧ p.pos.lonDeg = normLon (lon0 + vLon * now) ∧
      (-180 ≤ p.pos.lonDeg ∧ p.pos.lonDeg < 180) ∧ p.pos.altM = altM ∧
      ∀ (s : State ℝ) (icao : Icao) (log : AcLog ℝ), s.acLog.lookup icao = some log →
        log.fixes = fixes → s.trackPrediction icao altM now = some p := by
  have hmem : last ∈ fixes := List.mem_of_getLast? hlast
  obtain ⟨hsw, hsxx⟩ := fit_divisors_pos hlast hspan
  have heast := LineFit.fitAt_of_line hsw.ne' hsxx.ne'
    (fun f hf => huniform.eastM_eq hmem (List.mem_filter.1 hf).1) now
  have hnorth := LineFit.fitAt_of_line hsw.ne' hsxx.ne'
    (fun f hf => huniform.northM_eq hmem (List.mem_filter.1 hf).1) now
  have hp := predictFixes_eq hlast altM h1 h2
  rw [if_pos ⟨hspan, hspeed⟩] at hp
  have hlon : (lineAt fixes last altM now).pos.lonDeg = normLon (lon0 + vLon * now) := by
    have hstep : last.pos.lonDeg + LineFit.fitAt fitWeight Fix.t (eastM last)
        (fitWindow fixes last) now / mLon last =
        normLon (lon0 + vLon * last.t) + vLon * (now - last.t) := by
      have hpos := mLon_pos last
      rw [heast, huniform.lon last hmem]
      field_simp
      ring
    have hnorm : (lineAt fixes last altM now).pos.lonDeg =
        normLon (last.pos.lonDeg + LineFit.fitAt fitWeight Fix.t (eastM last)
          (fitWindow fixes last) now / mLon last) := rfl
    rw [hnorm, hstep, normLon_normLon_add]
    congr 1
    ring
  refine ⟨_, hp, ?_, hlon, ?_, rfl, ?_⟩
  · have hpos := mLat_pos
    simp only [lineAt]
    rw [hnorth, huniform.lat last hmem]
    field_simp
    ring
  · rw [hlon]
    exact normLon_mem _
  · rintro s icao log hlog rfl
    exact (trackPrediction_eq s hlog altM now).trans hp

/-- The last fix of an eastbound track, beyond the antimeridian. -/
noncomputable def crossed : Fix ℝ := ⟨3.0, ⟨10.0, -179.994, 10000.0⟩, 400.0⟩

/-- The track, with a fix on each side. -/
noncomputable def crossing : List (Fix ℝ) := [⟨0, ⟨10.0, 179.997, 10000.0⟩, 120.0⟩, crossed]

theorem crossing_uniform : Uniform crossing 10 0 179.997 0.003 where
  lat := by
    intro f hf
    rcases List.mem_pair.1 hf with rfl | rfl <;> norm_num [crossed]
  lon := by
    intro f hf
    rcases List.mem_pair.1 hf with rfl | rfl
    · rw [normLon_of_mem (by norm_num) (by norm_num)]
      norm_num
    · have hturn : (179.997 + 0.003 * 3.0 : ℝ) = -179.994 - 360 * (-1 : ℤ) := by norm_num
      rw [crossed, hturn, normLon_sub_turns, normLon_of_mem (by norm_num) (by norm_num)]
  drift := by
    intro f hf g hg
    rcases List.mem_pair.1 hf with rfl | rfl <;> rcases List.mem_pair.1 hg with rfl | rfl <;>
      norm_num [abs_lt, crossed]

theorem crossing_spanEnough : SpanEnough crossing crossed := by
  refine ⟨⟨0, ⟨10.0, 179.997, 10000.0⟩, 120.0⟩, ?_, by norm_num [fitMinSpanS, crossed]⟩
  have hnear : crossed.t - 0 ≤ fitWindowS := by norm_num [fitWindowS, crossed]
  rw [fitWindow, crossing, List.filter_cons, if_pos (decide_eq_true hnear)]
  rfl

theorem crossing_lineUsed : LineUsed crossing crossed := by
  refine ⟨crossing_spanEnough, ?_⟩
  have hlast : crossing.getLast? = some crossed := rfl
  obtain ⟨hve, hvn⟩ := crossing_uniform.fitted_velocity hlast crossing_spanEnough
  have hpos := mLon_pos crossed
  have hle := mLon_le crossed
  have hmLat : mLat = 111320 := by norm_num [mLat]
  have hmax : (maxSpeedMps : ℝ) = 400 := by norm_num [maxSpeedMps]
  rw [hve, hvn, hmax]
  refine Real.sqrt_le_iff.2 ⟨by norm_num, ?_⟩
  rw [zero_mul, zero_pow two_ne_zero, add_zero]
  exact pow_le_pow_left₀ (by positivity) (by linarith) 2

theorem prediction_exact_crossing : ∃ p, predictFixes crossing 10000 5 = some p ∧
    p.pos.lonDeg = normLon (179.997 + 0.003 * 5) := by
  obtain ⟨p, hp, -, hlon, -⟩ := prediction_exact crossing crossed rfl _ _ _ _ crossing_uniform
    crossing_spanEnough crossing_lineUsed.2 10000 5 (by norm_num [crossed])
    (by norm_num [trackStaleS, crossed])
  exact ⟨p, hp, hlon⟩

/-- The gate about the fitted line, one second and two after the last fix. -/
theorem gate_widens_crossing :
    gateRadius 200 (lineAt crossing crossed 10000 4) ≤
      gateRadius 200 (lineAt crossing crossed 10000 5) ∧
    0 < fitSw crossing crossed ∧ 0 < fitSxx crossing crossed := by
  have hsorted : crossing.Pairwise fun f g => f.t ≤ g.t :=
    List.pairwise_pair.2 (by norm_num [crossed])
  obtain ⟨⟨p1, p2, h1, h2, h, -⟩, -, hdivisors⟩ := gate_widens crossing crossed rfl hsorted 10000
    200 4 5 (by norm_num [crossed]) (by norm_num) (by norm_num [trackStaleS, crossed])
  have hline (now : ℝ) (hnow : crossed.t ≤ now) (hfresh : now < crossed.t + trackStaleS) :
      predictFixes crossing 10000 now = some (lineAt crossing crossed 10000 now) := by
    rw [predictFixes_eq rfl 10000 hnow hfresh, if_pos crossing_lineUsed]
  rw [hline 4 (by norm_num [crossed]) (by norm_num [trackStaleS, crossed])] at h1
  rw [hline 5 (by norm_num [crossed]) (by norm_num [trackStaleS, crossed])] at h2
  cases h1
  cases h2
  exact ⟨h, hdivisors crossing_spanEnough⟩

end

end Mlatd
