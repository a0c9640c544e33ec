/-
  The position solve (solve.rs) started at the truth, over exact arithmetic.

  Observations as they are heard from a point leave one unknown when the iteration starts there,
  the transmit time. In it the residuals are linear: each step takes off what is left of it, a
  millisecond at most, and moves nothing else. `solve_heard`: the solve ends at the truth, unless
  its normal matrix is singular there, and neither the lobe test nor leave-one-out gives it up.
-/
import Mlatd.Solve.Covariance
import Mlatd.Solve.Symmetry

open Matrix

namespace Mlatd

/-- Receivers, each with its timing error, as they hear a transmission from `p` at `tTx`. -/
noncomputable def heardFrom (p : Geodetic ℝ) (tTx : ℝ) (rxs : List (Ecef ℝ × ℝ)) :
    List (Observation ℝ) :=
  rxs.map fun r => ⟨r.1, tTx + dist p.toEcef r.1 / cMps, r.2⟩

/-! ## The system in the transmit time -/

/-- The derivative does not depend on the transmit time. -/
theorem jacobianRow_tTx (lat lon altM t t' : ℝ) (o : Observation ℝ) :
    jacobianRow lat lon altM t o = jacobianRow lat lon altM t' o := by
  have hplace (lat' lon' : ℝ) : residualW lat' lon' altM t o - residualW lat lon altM t o =
      residualW lat' lon' altM t' o - residualW lat lon altM t' o := by
    unfold residualW
    ring
  have htime : residualW lat lon altM (t + 1e-7) o - residualW lat lon altM t o =
      residualW lat lon altM (t' + 1e-7) o - residualW lat lon altM t' o := by
    unfold residualW
    ring
  unfold jacobianRow
  simp only [hplace, htime]

/-- In the transmit time it is the weight. -/
theorem jacobianRow_two (lat lon altM t : ℝ) (o : Observation ℝ) :
    jacobianRow lat lon altM t o 2 = 1 / F64.max o.errS 1e-9 := by
  have hstep : (1e-7 : ℝ) ≠ 0 := by norm_num
  have herr : F64.max o.errS 1e-9 ≠ 0 := (lt_max_of_lt_right (by norm_num) : (0 : ℝ) < _).ne'
  show (residualW lat lon altM (t + 1e-7) o - residualW lat lon altM t o) / 1e-7 = _
  unfold residualW
  field_simp
  ring

/-- The right side of a system whose residuals are `δ` times its last column. -/
theorem gradient_of_column (rows : List (Fin 3 → ℝ)) (δ : ℝ) :
    gradient (rows.map fun r => (r, δ * r 2)) = gram rows *ᵥ Pi.single 2 (-δ) := by
  have hfold (acc : Fin 3 → ℝ) (jtj : Matrix (Fin 3) (Fin 3) ℝ) (h : ∀ a, acc a = jtj a 2 * -δ) :
      ∀ a, (rows.map fun r => (r, δ * r 2)).foldl (fun acc x a => acc a - x.1 a * x.2) acc a =
        rows.foldl (fun (jtj : Matrix (Fin 3) (Fin 3) ℝ) ji => of fun a b => jtj a b + ji a * ji b)
          jtj a 2 * -δ := by
    induction rows generalizing acc jtj with
    | nil => exact h
    | cons r rows ih =>
      refine ih _ _ fun a => ?_
      show acc a - r a * (δ * r 2) = (jtj a 2 + r a * r 2) * -δ
      rw [h a]
      ring
  funext a
  rw [mulVec_single]
  refine hfold _ _ (fun a => ?_) a
  have h0 : (0.0 : ℝ) = 0 := by norm_num
  show (0.0 : ℝ) = 0.0 * -δ
  rw [h0, zero_mul]

/-- A system with a known solution is solved by it. -/
theorem solve3_mulVec_self (A : Matrix (Fin 3) (Fin 3) ℝ) (v : Fin 3 → ℝ) :
    solve3 A (A *ᵥ v) = if |A.det| < 1e-30 then none else some v := by
  rw [solve3_eq]
  split
  · rfl
  · next hdet =>
    have hne : A.det ≠ 0 := by
      intro h0
      rw [h0, abs_zero] at hdet
      norm_num at hdet
    rw [cramer_eq_adjugate_mulVec, mulVec_mulVec, adjugate_mul, smul_mulVec, one_mulVec,
      inv_smul_smul₀ hne]

section
variable (p : Geodetic ℝ) (tTx : ℝ) (rxs : List (Ecef ℝ × ℝ))

/-- The normal matrix at the truth. -/
noncomputable def truthMatrix : Matrix (Fin 3) (Fin 3) ℝ :=
  gram ((heardFrom p tTx rxs).map (jacobianRow p.latDeg p.lonDeg p.altM tTx))

/-- The residual of what is heard is the error in the transmit time. -/
theorem residualW_heard (t : ℝ) {o : Observation ℝ} (ho : o ∈ heardFrom p tTx rxs) :
    residualW p.latDeg p.lonDeg p.altM t o =
      (t - tTx) * jacobianRow p.latDeg p.lonDeg p.altM tTx o 2 := by
  obtain ⟨r, -, rfl⟩ := List.mem_map.1 ho
  rw [jacobianRow_two]
  unfold residualW
  simp only
  ring

/-- One step from the truth with another transmit time. -/
theorem newtonStep_heard (s : Iterate ℝ) (hlat : s.lat = p.latDeg) (hlon : s.lon = p.lonDeg) :
    newtonStep (heardFrom p tTx rxs) p.altM s =
      if |(truthMatrix p tTx rxs).det| < 1e-30 then none
      else some (s.stepBy (Pi.single 2 (tTx - s.tTx))) := by
  have hrows : (heardFrom p tTx rxs).map (jacobianRow s.lat s.lon p.altM s.tTx) =
      (heardFrom p tTx rxs).map (jacobianRow p.latDeg p.lonDeg p.altM tTx) := by
    rw [hlat, hlon]
    exact List.map_congr_left fun o _ => jacobianRow_tTx _ _ _ _ _ o
  have hgradient : ((heardFrom p tTx rxs).map fun o => (jacobianRow s.lat s.lon p.altM s.tTx o,
        residualW s.lat s.lon p.altM s.tTx o)) =
      ((heardFrom p tTx rxs).map (jacobianRow p.latDeg p.lonDeg p.altM tTx)).map fun r =>
        (r, (s.tTx - tTx) * r 2) := by
    rw [hlat, hlon, List.map_map]
    refine List.map_congr_left fun o ho => ?_
    rw [residualW_heard p tTx rxs s.tTx ho, jacobianRow_tTx _ _ _ s.tTx tTx]
    rfl
  have hsolve := solve3_mulVec_self (truthMatrix p tTx rxs) (Pi.single 2 (tTx - s.tTx))
  rw [newtonStep_eq, hrows, hgradient, gradient_of_column, neg_sub]
  unfold truthMatrix at hsolve ⊢
  rw [hsolve]
  split
  · rfl
  · rfl

/-! ## The iteration -/

/-- What a step takes off an error `x` of the transmit time. -/
noncomputable def taken (x : ℝ) : ℝ := F64.clamp x (-1e-3) 1e-3

theorem taken_of_le {x : ℝ} (h : |x| ≤ 1e-3) : taken x = x := by
  obtain ⟨h1, h2⟩ := abs_le.1 h
  show max (-1e-3) (min x 1e-3) = x
  rw [min_eq_left h2, max_eq_right h1]

theorem abs_sub_taken {x : ℝ} (h : 1e-3 < |x|) :
    |taken x| = 1e-3 ∧ |x - taken x| = |x| - 1e-3 := by
  have hpos : (0 : ℝ) < 1e-3 := by norm_num
  rcases le_total 0 x with h0 | h0
  · rw [abs_of_nonneg h0] at h
    have ht : taken x = 1e-3 := by
      show max (-1e-3) (min x 1e-3) = 1e-3
      rw [min_eq_right h.le, max_eq_right (by linarith)]
    rw [ht, abs_of_pos hpos, abs_of_nonneg h0, abs_of_pos (by linarith)]
    exact ⟨rfl, rfl⟩
  · rw [abs_of_nonpos h0] at h
    have ht : taken x = -1e-3 := by
      show max (-1e-3) (min x 1e-3) = -1e-3
      rw [min_eq_left (by linarith), max_eq_left (by linarith)]
    rw [ht, abs_neg, abs_of_pos hpos, abs_of_nonpos h0, abs_of_neg (by linarith)]
    exact ⟨rfl, by ring⟩

theorem stepBy_single (s : Iterate ℝ) (x : ℝ) : s.stepBy (Pi.single 2 x) =
    ({ s with tTx := s.tTx + taken x, iters := s.iters + 1 }, decide (|taken x| < 1e-12)) := by
  have hclamp : F64.clamp (0 : ℝ) (-1.0) 1.0 = 0 := by
    show max (-1.0) (min 0 1.0) = (0 : ℝ)
    rw [min_eq_left (by norm_num), max_eq_right (by norm_num)]
  have hzero : F64.abs (0 : ℝ) < 1e-9 := by
    show |(0 : ℝ)| < 1e-9
    rw [abs_zero]
    norm_num
  have hne0 : (0 : Fin 3) ≠ 2 := by decide
  have hne1 : (1 : Fin 3) ≠ 2 := by decide
  have h0 : (Pi.single 2 x : Fin 3 → ℝ) 0 = 0 := Pi.single_eq_of_ne hne0 x
  have h1 : (Pi.single 2 x : Fin 3 → ℝ) 1 = 0 := Pi.single_eq_of_ne hne1 x
  have h2 : (Pi.single 2 x : Fin 3 → ℝ) 2 = x := by rw [Pi.single_apply, if_pos rfl]
  unfold Iterate.stepBy
  simp only [h0, h1, h2, hclamp, hzero, true_and, add_zero]
  rfl

/-- Steps enough for what is off take all of it. -/
theorem newton_heard (hdet : 1e-30 ≤ |(truthMatrix p tTx rxs).det|) (fuel : ℕ) (s : Iterate ℝ)
    (hlat : s.lat = p.latDeg) (hlon : s.lon = p.lonDeg) (ht : |tTx - s.tTx| ≤ fuel * 1e-3) :
    ∃ n, newton (heardFrom p tTx rxs) p.altM fuel s = some ⟨p.latDeg, p.lonDeg, tTx, n⟩ := by
  induction fuel generalizing s with
  | zero =>
    rw [Nat.cast_zero, zero_mul] at ht
    have heq : s.tTx = tTx := (sub_eq_zero.1 (abs_nonpos_iff.1 ht)).symm
    refine ⟨s.iters, ?_⟩
    rw [newton, ← hlat, ← hlon, ← heq]
  | succ fuel ih =>
    rw [newton, newtonStep_heard p tTx rxs s hlat hlon, if_neg (not_lt.2 hdet), stepBy_single,
      Option.bind_some]
    simp only [decide_eq_true_eq]
    -- what is left after the step, and what that says when it was the last
    have hleft : tTx - (s.tTx + taken (tTx - s.tTx)) = tTx - s.tTx - taken (tTx - s.tTx) := by ring
    by_cases hsmall : |tTx - s.tTx| ≤ 1e-3
    · have hdone : s.tTx + taken (tTx - s.tTx) = tTx := by
        rw [taken_of_le hsmall]
        ring
      rw [hdone]
      split
      · exact ⟨s.iters + 1, by rw [hlat, hlon]⟩
      · refine ih _ hlat hlon ?_
        rw [sub_self, abs_zero]
        positivity
    · rw [not_le] at hsmall
      obtain ⟨htaken, hrest⟩ := abs_sub_taken hsmall
      have hlast : ¬ |taken (tTx - s.tTx)| < 1e-12 := by
        rw [htaken]
        norm_num
      rw [if_neg hlast]
      refine ih _ hlat hlon ?_
      rw [hleft, hrest]
      push_cast at ht
      linarith

/-! ## The fit -/

/-- Whole turns taken off the longitude leave the observations where they are. -/
theorem normLon_eq_add (obs : List (Observation ℝ)) (lon : ℝ) :
    ∃ θ, normLon lon = lon + θ ∧ obs.map (Observation.move θ 0) = obs := by
  refine ⟨0 - 360 * ⌊(lon + 180) / 360⌋, by rw [normLon_eq]; ring, ?_⟩
  rw [move_sub_turns, move_zero]
  refine (List.map_congr_left fun o _ => ?_).trans (List.map_id obs)
  unfold Observation.shift
  rw [add_zero]
  rfl

theorem normalMatrix_turns (obs : List (Observation ℝ)) (lat lon altM tTx : ℝ) :
    normalMatrix obs lat (normLon lon) altM tTx = normalMatrix obs lat lon altM tTx := by
  obtain ⟨θ, hlon, hobs⟩ := normLon_eq_add obs lon
  have h := normalMatrix_move θ 0 obs altM lat lon tTx
  rwa [hobs, add_zero, ← hlon] at h

theorem residualsW_turns (obs : List (Observation ℝ)) (lat lon altM tTx : ℝ) :
    residualsW obs lat (normLon lon) altM tTx = residualsW obs lat lon altM tTx := by
  obtain ⟨θ, hlon, hobs⟩ := normLon_eq_add obs lon
  have h := residualsW_move θ 0 obs altM lat lon tTx
  rwa [hobs, add_zero, ← hlon] at h

/-- A fit that is the truth: the position, the transmit time, and nothing left over. -/
structure AtTruth (sol : Solution ℝ) : Prop where
  pos : sol.pos = { p with lonDeg := normLon p.lonDeg }
  tTx_eq : sol.tTx = tTx
  rmsS : sol.rmsS = 0
  errEstM : sol.errEstM = 0
  residualsS : ∀ r ∈ sol.residualsS, r = 0

theorem residuals_heard :
    residuals (heardFrom p tTx rxs) p.latDeg p.lonDeg p.altM tTx = rxs.map fun _ => 0 := by
  unfold residuals heardFrom
  rw [List.map_map]
  refine List.map_congr_left fun r _ => ?_
  exact sub_self _

theorem residualsW_heard :
    residualsW (heardFrom p tTx rxs) p.latDeg p.lonDeg p.altM tTx = rxs.map fun _ => 0 := by
  rw [residualsW_eq_map]
  refine (List.map_congr_left fun o ho => ?_).trans (List.map_map (g := fun _ => (0 : ℝ)))
  rw [residualW_heard p tTx rxs tTx ho, sub_self, zero_mul]

theorem sum_squares_zero {α : Type} (xs : List α) :
    F64.sum ((xs.map fun _ => (0 : ℝ)).map fun x => x * x) = 0 := by
  rw [F64.sum_eq, List.map_map]
  refine List.sum_eq_zero fun x hx => ?_
  obtain ⟨a, -, rfl⟩ := List.mem_map.1 hx
  exact mul_zero 0

theorem finish_heard (hlat : |p.latDeg| ≤ 90) (hdet : 1e-30 ≤ |(truthMatrix p tTx rxs).det|)
    (n : ℕ) : ∃ sol, finish (fun v => F64.sqrt (F64.abs v)) (heardFrom p tTx rxs) p.altM
      ⟨p.latDeg, p.lonDeg, tTx, n⟩ = some sol ∧ AtTruth p tTx sol := by
  have hnormal : normalMatrix (heardFrom p tTx rxs) p.latDeg p.lonDeg p.altM tTx =
      truthMatrix p tTx rxs := by
    unfold normalMatrix truthMatrix
    rw [jacobian_eq_map]
  have hgate : (!F64.isFinite p.latDeg || !F64.isFinite p.lonDeg ||
      decide (90.0 < F64.abs p.latDeg)) = false := by
    have h90 : ¬ (90.0 : ℝ) < F64.abs p.latDeg := by
      refine not_lt.2 (hlat.trans (le_of_eq ?_))
      norm_num
    show decide (90.0 < F64.abs p.latDeg) = false
    exact decide_eq_false h90
  have hrms (m : ℝ) : F64.sqrt (0 / m) = 0 := by
    rw [zero_div]
    exact Real.sqrt_zero
  have hmax : ¬ maxRmsS < (0 : ℝ) := by
    unfold maxRmsS
    norm_num
  have hlon (x : ℝ) : F64.remEuclid (x + 540.0) 360.0 - 180.0 = normLon x := rfl
  have hvar (k : ℕ) : sigma2 (rxs.map fun _ => (0 : ℝ)) k = 0 := by
    unfold sigma2
    rw [sum_squares_zero, zero_div]
  have herr : F64.sqrt (F64.abs (0 : ℝ)) = 0 := (congrArg Real.sqrt abs_zero).trans Real.sqrt_zero
  refine ⟨{ pos := { p with lonDeg := normLon p.lonDeg }
            rmsS := 0
            errEstM := 0
            errGeomM := F64.sqrt (F64.abs (geomM2 (truthMatrix p tTx rxs)⁻¹ p.latDeg))
            iterations := n
            tTx := tTx
            residualsS := rxs.map fun _ => 0 }, ?_, rfl, rfl, rfl, rfl, fun r hr => ?_⟩
  · unfold finish estimate
    simp only [hgate, Bool.false_eq_true, if_false, residuals_heard, sum_squares_zero, hrms, hmax,
      hlon, residualsW_turns, residualsW_heard, normalMatrix_turns, hnormal, invert3_eq_some hdet,
      hvar, zero_mul, herr, Option.map_some]
  · obtain ⟨a, -, rfl⟩ := List.mem_map.1 hr
    rfl

/-! ## The start -/

omit p tTx rxs in
theorem foldMin_mem {xs : List ℝ} {m : ℝ} (h : F64.foldMin xs = some m) : m ∈ xs := by
  induction xs using List.reverseRecOn generalizing m with
  | nil => cases h
  | append_singleton xs x ih =>
    rw [foldMin_concat] at h
    obtain rfl := Option.some.inj h
    cases hm : F64.foldMin xs with
    | none => exact List.mem_append_right _ (List.mem_singleton.2 rfl)
    | some a =>
      simp only [Option.elim_some]
      rcases min_choice a x with heq | heq
      · rw [heq]
        exact List.mem_append_left _ (ih hm)
      · rw [heq]
        exact List.mem_append_right _ (List.mem_singleton.2 rfl)

/-- From the first arrival less 200 km, the transmit time is within the reach of the iteration. -/
theorem startAt_heard {tMin : ℝ}
    (hmin : F64.foldMin ((heardFrom p tTx rxs).map Observation.tS) = some tMin)
    (hnear : ∃ r ∈ rxs, dist p.toEcef r.1 ≤ 200e3 + 15e-3 * cMps) :
    |tTx - (startAt p tMin).tTx| ≤ (maxIter : ℕ) * 1e-3 := by
  have hc : (0 : ℝ) < cMps := by
    unfold cMps
    norm_num
  have hafter : tTx ≤ tMin := by
    obtain ⟨o, ho, rfl⟩ := List.mem_map.1 (foldMin_mem hmin)
    obtain ⟨r, -, rfl⟩ := List.mem_map.1 ho
    exact le_add_of_nonneg_right (div_nonneg (Real.sqrt_nonneg _) hc.le)
  obtain ⟨r, hr, hdist⟩ := hnear
  have hbefore : tMin ≤ tTx + dist p.toEcef r.1 / cMps :=
    foldMin_le hmin _ (List.mem_map.2 ⟨_, List.mem_map.2 ⟨r, hr, rfl⟩, rfl⟩)
  have hreach : dist p.toEcef r.1 / cMps ≤ 200e3 / cMps + 15e-3 := by
    rw [div_add' _ _ _ hc.ne']
    exact div_le_div_of_nonneg_right hdist hc.le
  have hback : (200e3 : ℝ) / cMps ≤ 1e-3 := by
    unfold cMps
    norm_num
  have hback0 : (0 : ℝ) ≤ 200e3 / cMps := div_nonneg (by norm_num) hc.le
  have hcap : ((maxIter : ℕ) : ℝ) * 1e-3 = 15e-3 := by
    unfold maxIter
    norm_num
  have hstart : (startAt p tMin).tTx = tMin - 200e3 / cMps := rfl
  rw [hcap, hstart, abs_le]
  constructor
  · linarith
  · norm_num at hback ⊢
    linarith

/-! ## The solves -/

theorem solve_none_heard (hdet : |(truthMatrix p tTx rxs).det| < 1e-30) :
    solve (heardFrom p tTx rxs) p.altM p = none := by
  unfold solve
  rw [solveRoot_eq]
  split
  · rfl
  · have hfirst : ∀ tMin, newton (heardFrom p tTx rxs) p.altM maxIter (startAt p tMin) = none := by
      intro tMin
      unfold maxIter
      rw [newton, newtonStep_heard p tTx rxs _ rfl rfl, if_pos hdet]
      rfl
    rw [hfirst]
    rfl

theorem solve_some_heard (hn : 4 ≤ rxs.length) (hlat : |p.latDeg| ≤ 90)
    (hnear : ∃ r ∈ rxs, dist p.toEcef r.1 ≤ 200e3 + 15e-3 * cMps)
    (hdet : 1e-30 ≤ |(truthMatrix p tTx rxs).det|) :
    ∃ sol, solve (heardFrom p tTx rxs) p.altM p = some sol ∧ AtTruth p tTx sol := by
  have hlen : (heardFrom p tTx rxs).length = rxs.length := List.length_map _
  have hne : (heardFrom p tTx rxs).map Observation.tS ≠ [] := by
    intro h
    rw [List.map_eq_nil_iff] at h
    rw [h, List.length_nil] at hlen
    omega
  obtain ⟨tMin, hmin⟩ := foldMin_of_ne_nil hne
  obtain ⟨n, hnewton⟩ := newton_heard p tTx rxs hdet maxIter (startAt p tMin) rfl rfl
    (startAt_heard p tTx rxs hmin hnear)
  unfold solve
  rw [solveRoot_eq, if_neg (by omega), hmin, Option.getD_some, hnewton]
  exact finish_heard p tTx rxs hlat hdet n

omit p tTx rxs in
theorem solve_rmsS_nonneg {obs : List (Observation ℝ)} {altM : ℝ} {init : Geodetic ℝ}
    {s : Solution ℝ} (h : solve obs altM init = some s) : 0 ≤ s.rmsS := by
  unfold solve at h
  rw [solveRoot_eq] at h
  obtain ⟨it, -, hfinish⟩ := Option.bind_eq_some_iff.1 (Option.ite_none_left_eq_some.1 h).2
  unfold finish at hfinish
  have hest := (Option.ite_none_left_eq_some.1 (Option.ite_none_left_eq_some.1 hfinish).2).2
  obtain ⟨cov, -, rfl⟩ := Option.map_eq_some_iff.1 hest
  exact Real.sqrt_nonneg _

/-- No other lobe fits as well as one without residual. -/
theorem acrossTheLine_exact {obs : List (Observation ℝ)} {sol : Solution ℝ} (hrms : sol.rmsS = 0)
    (h : 4 < obs.length ∨ (mirrorAcrossReceivers obs sol.pos).isSome) (altM : ℝ) :
    acrossTheLine solve obs altM sol = some sol := by
  have hexpected : (0 : ℝ) ≤ lobeTestRmsFactor *
      F64.sqrt (F64.sum (obs.map fun o => o.errS * o.errS) / F64.ofNat obs.length) :=
    mul_nonneg (by unfold lobeTestRmsFactor; norm_num) (Real.sqrt_nonneg _)
  unfold acrossTheLine
  simp only
  rw [hrms]
  split
  · rfl
  · next hfew =>
    have hmirror := h.resolve_left fun hlen => hfew ⟨hlen, hexpected⟩
    obtain ⟨mirror, hm⟩ := Option.isSome_iff_exists.1 hmirror
    simp only [hm]
    cases hother : solve obs altM mirror with
    | none => rfl
    | some other =>
      have hnonneg := solve_rmsS_nonneg hother
      simp only [if_neg (not_lt.2 hnonneg)]
      split
      · rfl
      · rw [if_neg (by rw [hrms, mul_zero]; exact not_lt.2 hnonneg)]

end

/-- **Started at the truth, the solve ends there.** Four or more receivers, one of them within
    4696 km, hear a transmission exactly: the solve started at its position fails just when its
    normal matrix is singular there, and else gives the position, the transmit time, and nothing
    left over; and the robust solve keeps that fit, where with four receivers there is a mirror
    point to test it against. -/
theorem solve_heard {p : Geodetic ℝ} {rxs : List (Ecef ℝ × ℝ)} (hn : 4 ≤ rxs.length)
    (hlat : |p.latDeg| ≤ 90) (hnear : ∃ r ∈ rxs, dist p.toEcef r.1 ≤ 200e3 + 15e-3 * cMps)
    (tTx : ℝ) :
    (solve (heardFrom p tTx rxs) p.altM p = none ↔ |(truthMatrix p tTx rxs).det| < 1e-30) ∧
    ∀ sol, solve (heardFrom p tTx rxs) p.altM p = some sol → AtTruth p tTx sol ∧
      (4 < rxs.length ∨ (mirrorAcrossReceivers (heardFrom p tTx rxs) sol.pos).isSome →
        solveRobust solve (heardFrom p tTx rxs) p.altM p = some sol) := by
  have hsome := solve_some_heard p tTx rxs hn hlat hnear
  refine ⟨⟨fun hnone => not_le.1 fun hdet => ?_, solve_none_heard p tTx rxs⟩, fun sol hsol => ?_⟩
  · obtain ⟨sol, hsol, -⟩ := hsome hdet
    rw [hnone] at hsol
    cases hsol
  · have hdet : 1e-30 ≤ |(truthMatrix p tTx rxs).det| := by
      refine not_lt.1 fun hdet => ?_
      rw [solve_none_heard p tTx rxs hdet] at hsol
      cases hsol
    obtain ⟨sol', hsol', htruth⟩ := hsome hdet
    obtain rfl : sol' = sol := Option.some.inj (hsol'.symm.trans hsol)
    refine ⟨htruth, fun hlobe => ?_⟩
    have hlen : (heardFrom p tTx rxs).length = rxs.length := List.length_map _
    have hfull : fullFit solve mirrorAcrossReceivers Geodetic.haversineM (heardFrom p tTx rxs)
        p.altM p = some sol' := by
      unfold fullFit
      rw [hsol, Option.bind_some, ← acrossTheLine_eq]
      exact acrossTheLine_exact htruth.rmsS (hlen ▸ hlobe) p.altM
    have hquiet : triggers (some sol') = false := by
      show decide ((0.5e-6 : ℝ) < sol'.rmsS) = false
      rw [htruth.rmsS]
      norm_num
    rw [solveRobust_eq]
    unfold solveRobustBy
    simp only [hfull, hquiet, Bool.not_false, Bool.true_or, if_true]

/-- An aircraft 10 km over the equator, and four receivers below it. -/
noncomputable def overEquator : Geodetic ℝ := ⟨0, 0, 10000⟩

noncomputable def fourReceivers : List (Ecef ℝ × ℝ) :=
  [(⟨6378137, 100000, 0⟩, 1e-6), (⟨6378137, -100000, 0⟩, 1e-6), (⟨6378137, 0, 100000⟩, 1e-6),
    (⟨6378137, 0, -100000⟩, 1e-6)]

theorem overEquator_toEcef : overEquator.toEcef = ⟨6388137, 0, 0⟩ := by
  have h0 : F64.toRadians (0 : ℝ) = 0 := zero_mul _
  have hcos : F64.cos (0 : ℝ) = 1 := Real.cos_zero
  have hsin : F64.sin (0 : ℝ) = 0 := Real.sin_zero
  have hroot : F64.sqrt (1.0 - 0 : ℝ) = 1 := by
    show Real.sqrt (1.0 - 0) = 1
    norm_num
  unfold Geodetic.toEcef overEquator
  simp only [h0, hcos, hsin, mul_one, mul_zero, hroot, div_one]
  unfold wgs84A
  norm_num

theorem solve_heard_overEquator :
    (solve (heardFrom overEquator 1 fourReceivers) 10000 overEquator = none ↔
      |(truthMatrix overEquator 1 fourReceivers).det| < 1e-30) ∧
    ∀ sol, solve (heardFrom overEquator 1 fourReceivers) 10000 overEquator = some sol →
      AtTruth overEquator 1 sol ∧
      (4 < fourReceivers.length ∨
          (mirrorAcrossReceivers (heardFrom overEquator 1 fourReceivers) sol.pos).isSome →
        solveRobust solve (heardFrom overEquator 1 fourReceivers) 10000 overEquator =
          some sol) := by
  have hfour : 4 ≤ fourReceivers.length := Nat.le_refl 4
  refine solve_heard hfour ?_ ⟨(⟨6378137, 100000, 0⟩, 1e-6), List.mem_cons_self, ?_⟩ 1
  · show |(0 : ℝ)| ≤ 90
    norm_num
  · rw [overEquator_toEcef]
    refine Real.sqrt_le_iff.2 ⟨?_, ?_⟩
    · unfold cMps
      norm_num
    · unfold F64.sq cMps
      norm_num

end Mlatd
