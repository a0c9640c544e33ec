/-
  What the position solve (solve.rs) does not depend on, over exact arithmetic.

  `solve_move`: turning the globe about its axis and moving the origin of the timebase turns and
  moves the fix, and changes nothing else about it. `solve_perm`: the order of the observations
  decides the order of the residuals only. `solveRobust_shift`: the robust solve, its lobe test and
  its leave-one-out included, reads time differences only.
-/
import Mlatd.Solve.Covariance
import Mlatd.Solve.Mirror
import Mlatd.Solve.Newton
import Mlatd.Tracks.Discipline
import Mlatd.Tracks.Prediction

namespace Mlatd

variable {F : Type} [F64 F]

/-! ## Row by row -/

/-- The residual of one observation over the timing error stated for it. -/
def residualW (lat lon altM tTx : F) (o : Observation F) : F :=
  (tTx + dist (Geodetic.mk lat lon altM).toEcef o.rx / cMps - o.tS) / F64.max o.errS 1e-9

/-- The derivative of it. -/
def jacobianRow (lat lon altM tTx : F) (o : Observation F) : Fin 3 → F :=
  let r := residualW lat lon altM tTx o
  let dlat : F := 1e-5
  let dlon : F := 1e-5 / F64.max (F64.cos (F64.toRadians lat)) 0.2
  let dt : F := 1e-7
  ![(residualW (lat + dlat) lon altM tTx o - r) / dlat,
    (residualW lat (lon + dlon) altM tTx o - r) / dlon,
    (residualW lat lon altM (tTx + dt) o - r) / dt]

section
variable (obs : List (Observation F)) (lat lon altM tTx : F)

theorem residualsW_eq_map :
    residualsW obs lat lon altM tTx = obs.map (residualW lat lon altM tTx) := by
  unfold residualsW residuals
  rw [List.zipWith_map_left, List.zipWith_self]
  rfl

theorem jacobian_eq_map :
    jacobian obs lat lon altM tTx = obs.map (jacobianRow lat lon altM tTx) := by
  unfold jacobian
  simp only [residualsW_eq_map]
  refine List.ext_getElem (by simp) fun i h1 h2 => ?_
  have hi : i < obs.length := by simpa using h2
  have hget (f : Observation F → F) : (obs.map f).getD i 0.0 = f obs[i] := by
    rw [List.getD_eq_getElem?_getD, List.getElem?_map, List.getElem?_eq_getElem hi]
    rfl
  simp only [List.getElem_map, List.getElem_range, hget]
  rfl

/-- The right side of the normal equations. -/
def gradient (xs : List ((Fin 3 → F) × F)) : Fin 3 → F :=
  xs.foldl (fun acc x a => acc a - x.1 a * x.2) fun _ => 0.0

theorem newtonStep_eq (s : Iterate F) : newtonStep obs altM s =
    (solve3 (gram (obs.map (jacobianRow s.lat s.lon altM s.tTx)))
      (gradient (obs.map fun o => (jacobianRow s.lat s.lon altM s.tTx o,
        residualW s.lat s.lon altM s.tTx o)))).map s.stepBy := by
  unfold newtonStep
  simp only [residualsW_eq_map, jacobian_eq_map, List.zip_map']
  rfl

end

/-- Where the iteration starts, from the first arrival. -/
def startAt (init : Geodetic F) (tMin : F) : Iterate F :=
  ⟨init.latDeg, init.lonDeg, tMin - 200e3 / cMps, 0⟩

/-- The fit of an iteration that ended. -/
def finish (root : F → F) (obs : List (Observation F)) (altM : F) (s : Iterate F) :
    Option (Solution F) :=
  if !F64.isFinite s.lat || !F64.isFinite s.lon || decide (90.0 < F64.abs s.lat) then none
  else
    let finalResid := residuals obs s.lat s.lon altM s.tTx
    let rms := F64.sqrt (F64.sum (finalResid.map fun x => x * x) / F64.ofNat finalResid.length)
    if maxRmsS < rms then none else estimate root obs altM s rms finalResid

theorem solveRoot_eq (root : F → F) (obs : List (Observation F)) (altM : F) (init : Geodetic F) :
    solveRoot root obs altM init =
      if obs.length < 4 then none
      else (newton obs altM maxIter
        (startAt init ((F64.foldMin (obs.map Observation.tS)).getD 0.0))).bind
          (finish root obs altM) := rfl

/-! ## The globe turned, the timebase moved -/

theorem toRadians_add (x y : ℝ) :
    F64.toRadians (x + y) = F64.toRadians x + F64.toRadians y := add_mul _ _ _

/-- A point turned about the axis of the globe. -/
noncomputable def Ecef.turn (θ : ℝ) (e : Ecef ℝ) : Ecef ℝ :=
  let a := F64.toRadians θ
  { x := e.x * F64.cos a - e.y * F64.sin a
    y := e.x * F64.sin a + e.y * F64.cos a
    z := e.z }

/-- A position turned, its longitude in `[-180, 180)`. -/
noncomputable def Geodetic.turn (θ : ℝ) (p : Geodetic ℝ) : Geodetic ℝ :=
  { p with lonDeg := normLon (p.lonDeg + θ) }

/-- An observation of the turned globe, in a timebase that reads `c` more. -/
noncomputable def Observation.move (θ c : ℝ) (o : Observation ℝ) : Observation ℝ where
  rx := o.rx.turn θ
  tS := o.tS + c
  errS := o.errS

noncomputable def Solution.move (θ c : ℝ) (s : Solution ℝ) : Solution ℝ :=
  { s with pos := s.pos.turn θ, tTx := s.tTx + c }

noncomputable def Iterate.move (θ c : ℝ) (s : Iterate ℝ) : Iterate ℝ :=
  { s with lon := s.lon + θ, tTx := s.tTx + c }

theorem toRadians_turns (k : ℤ) : F64.toRadians (360 * k : ℝ) = k * (2 * Real.pi) := by
  have h180 : (180.0 : ℝ) = 180 := by norm_num
  show (360 * k : ℝ) * (Real.pi / 180.0) = _
  rw [h180]
  ring

theorem toEcef_turn (lat lon altM θ : ℝ) :
    (Geodetic.mk lat (lon + θ) altM).toEcef = (Geodetic.mk lat lon altM).toEcef.turn θ := by
  have hcos : F64.cos (F64.toRadians (lon + θ)) =
      F64.cos (F64.toRadians lon) * F64.cos (F64.toRadians θ) -
        F64.sin (F64.toRadians lon) * F64.sin (F64.toRadians θ) := by
    rw [toRadians_add]
    exact Real.cos_add _ _
  have hsin : F64.sin (F64.toRadians (lon + θ)) =
      F64.sin (F64.toRadians lon) * F64.cos (F64.toRadians θ) +
        F64.cos (F64.toRadians lon) * F64.sin (F64.toRadians θ) := by
    rw [toRadians_add]
    exact Real.sin_add _ _
  unfold Geodetic.toEcef Ecef.turn
  simp only [hcos, hsin]
  congr 1 <;> ring

theorem dist_turn (θ : ℝ) (a b : Ecef ℝ) : dist (a.turn θ) (b.turn θ) = dist a b := by
  have hunit : F64.cos (F64.toRadians θ) * F64.cos (F64.toRadians θ) +
      F64.sin (F64.toRadians θ) * F64.sin (F64.toRadians θ) = (1 : ℝ) := by
    rw [← sq, ← sq]
    exact Real.cos_sq_add_sin_sq _
  unfold dist Ecef.turn F64.sq
  simp only
  congr 2
  linear_combination ((a.x - b.x) ^ 2 + (a.y - b.y) ^ 2) * hunit

/-- Whole turns change nothing. -/
theorem turn_sub_turns (θ : ℝ) (k : ℤ) (e : Ecef ℝ) : e.turn (θ - 360 * k) = e.turn θ := by
  have harg : F64.toRadians (θ - 360 * k) = F64.toRadians θ - k * (2 * Real.pi) := by
    rw [← toRadians_turns]
    exact sub_mul _ _ _
  have hcos : F64.cos (F64.toRadians (θ - 360 * k)) = F64.cos (F64.toRadians θ) := by
    rw [harg]
    exact Real.cos_sub_int_mul_two_pi _ k
  have hsin : F64.sin (F64.toRadians (θ - 360 * k)) = F64.sin (F64.toRadians θ) := by
    rw [harg]
    exact Real.sin_sub_int_mul_two_pi _ k
  unfold Ecef.turn
  simp only [hcos, hsin]

section
variable (θ c : ℝ) (obs : List (Observation ℝ)) (altM : ℝ)

/-- The moved observation has the residual of the observation. -/
theorem residualW_move (lat lon tTx : ℝ) (o : Observation ℝ) :
    residualW lat (lon + θ) altM (tTx + c) (o.move θ c) = residualW lat lon altM tTx o := by
  unfold residualW Observation.move
  rw [toEcef_turn, dist_turn]
  simp only
  congr 1
  ring

theorem jacobianRow_move (lat lon tTx : ℝ) (o : Observation ℝ) :
    jacobianRow lat (lon + θ) altM (tTx + c) (o.move θ c) = jacobianRow lat lon altM tTx o := by
  unfold jacobianRow
  simp only [add_right_comm _ θ, add_right_comm _ c, residualW_move]

theorem residualsW_move (lat lon tTx : ℝ) :
    residualsW (obs.map (Observation.move θ c)) lat (lon + θ) altM (tTx + c) =
      residualsW obs lat lon altM tTx := by
  rw [residualsW_eq_map, residualsW_eq_map, List.map_map]
  exact List.map_congr_left fun o _ => residualW_move θ c altM lat lon tTx o

theorem residuals_move (lat lon tTx : ℝ) :
    residuals (obs.map (Observation.move θ c)) lat (lon + θ) altM (tTx + c) =
      residuals obs lat lon altM tTx := by
  unfold residuals
  rw [List.map_map]
  refine List.map_congr_left fun o _ => ?_
  have hdist := dist_turn θ (Geodetic.mk lat lon altM).toEcef o.rx
  rw [← toEcef_turn] at hdist
  unfold dist at hdist
  simp only [Function.comp_apply, Observation.move, hdist]
  ring

theorem normalMatrix_move (lat lon tTx : ℝ) :
    normalMatrix (obs.map (Observation.move θ c)) lat (lon + θ) altM (tTx + c) =
      normalMatrix obs lat lon altM tTx := by
  unfold normalMatrix
  rw [jacobian_eq_map, jacobian_eq_map, List.map_map]
  exact congrArg gram (List.map_congr_left fun o _ => jacobianRow_move θ c altM lat lon tTx o)

theorem stepBy_move (s : Iterate ℝ) (step : Fin 3 → ℝ) :
    (s.move θ c).stepBy step = ((s.stepBy step).1.move θ c, (s.stepBy step).2) := by
  unfold Iterate.stepBy Iterate.move
  simp only [add_right_comm _ θ, add_right_comm _ c]

theorem newtonStep_move (s : Iterate ℝ) :
    newtonStep (obs.map (Observation.move θ c)) altM (s.move θ c) =
      (newtonStep obs altM s).map fun p => (p.1.move θ c, p.2) := by
  have hrow (o : Observation ℝ) :
      jacobianRow (s.move θ c).lat (s.move θ c).lon altM (s.move θ c).tTx (o.move θ c) =
        jacobianRow s.lat s.lon altM s.tTx o := jacobianRow_move θ c altM s.lat s.lon s.tTx o
  have hres (o : Observation ℝ) :
      residualW (s.move θ c).lat (s.move θ c).lon altM (s.move θ c).tTx (o.move θ c) =
        residualW s.lat s.lon altM s.tTx o := residualW_move θ c altM s.lat s.lon s.tTx o
  have hstep : (s.move θ c).stepBy = fun step => ((s.stepBy step).1.move θ c, (s.stepBy step).2) :=
    funext (stepBy_move θ c s)
  rw [newtonStep_eq, newtonStep_eq, List.map_map, List.map_map, Option.map_map, hstep]
  simp only [Function.comp_def, hrow, hres]

theorem newton_move (fuel : ℕ) (s : Iterate ℝ) :
    newton (obs.map (Observation.move θ c)) altM fuel (s.move θ c) =
      (newton obs altM fuel s).map (Iterate.move θ c) := by
  induction fuel generalizing s with
  | zero => rfl
  | succ fuel ih =>
    rw [newton, newton, newtonStep_move]
    cases newtonStep obs altM s with
    | none => rfl
    | some p =>
      obtain ⟨s', last⟩ := p
      simp only [Option.map_some, Option.bind_some]
      cases last with
      | true => rfl
      | false => exact ih s'

/-- The longitude of the moved fit, whole turns of another number taken off. -/
theorem normLon_add_eq (lon : ℝ) :
    ∃ k : ℤ, normLon (lon + θ) = normLon lon + (θ - 360 * k) := by
  refine ⟨⌊(normLon lon + θ + 180) / 360⌋, ?_⟩
  rw [← normLon_normLon_add, normLon_eq (normLon lon + θ)]
  ring

theorem move_sub_turns (k : ℤ) :
    Observation.move (θ - 360 * k) c = (Observation.move θ c : Observation ℝ → Observation ℝ) := by
  funext o
  unfold Observation.move
  rw [turn_sub_turns]

theorem residualsW_normLon (lat lon tTx : ℝ) :
    residualsW (obs.map (Observation.move θ c)) lat (normLon (lon + θ)) altM (tTx + c) =
      residualsW obs lat (normLon lon) altM tTx := by
  obtain ⟨k, hk⟩ := normLon_add_eq θ lon
  rw [hk, ← move_sub_turns θ c k, residualsW_move]

theorem normalMatrix_normLon (lat lon tTx : ℝ) :
    normalMatrix (obs.map (Observation.move θ c)) lat (normLon (lon + θ)) altM (tTx + c) =
      normalMatrix obs lat (normLon lon) altM tTx := by
  obtain ⟨k, hk⟩ := normLon_add_eq θ lon
  rw [hk, ← move_sub_turns θ c k, normalMatrix_move]

/-- The fit of the moved problem where the moved iteration ended. -/
theorem estimate_move (root : ℝ → ℝ) (s : Iterate ℝ) (rms : ℝ) (finalResid : List ℝ) :
    estimate root (obs.map (Observation.move θ c)) altM (s.move θ c) rms finalResid =
      (estimate root obs altM s rms finalResid).map (Solution.move θ c) := by
  have hlon (x : ℝ) : F64.remEuclid (x + 540.0) 360.0 - 180.0 = normLon x := rfl
  have hr := residualsW_normLon θ c obs altM s.lat s.lon s.tTx
  have hn := normalMatrix_normLon θ c obs altM s.lat s.lon s.tTx
  unfold estimate
  simp only [hlon]
  unfold Iterate.move
  simp only [hr, hn, Option.map_map, List.length_map]
  refine Option.map_congr fun cov _ => ?_
  unfold Solution.move Geodetic.turn
  simp only [Function.comp_apply, normLon_normLon_add]

/-- The first arrival of the moved observations. -/
theorem foldMin_move : F64.foldMin ((obs.map (Observation.move θ c)).map Observation.tS) =
    (F64.foldMin (obs.map Observation.tS)).map (· + c) := by
  induction obs using List.reverseRecOn with
  | nil => rfl
  | append_singleton obs o ih =>
    simp only [List.map_append, List.map_cons, List.map_nil] at ih ⊢
    rw [foldMin_concat, foldMin_concat, ih, Option.map_some]
    cases F64.foldMin (obs.map Observation.tS) with
    | none => rfl
    | some a => exact congrArg some (min_add_add_right a o.tS c)

theorem foldMin_of_ne_nil {xs : List ℝ} (h : xs ≠ []) : ∃ t, F64.foldMin xs = some t := by
  rw [← List.dropLast_concat_getLast h, foldMin_concat]
  exact ⟨_, rfl⟩

/-- What is made of the end of the iteration. -/
theorem finish_move (root : ℝ → ℝ) (s : Iterate ℝ) :
    finish root (obs.map (Observation.move θ c)) altM (s.move θ c) =
      (finish root obs altM s).map (Solution.move θ c) := by
  have hres : residuals (obs.map (Observation.move θ c)) (s.move θ c).lat (s.move θ c).lon altM
      (s.move θ c).tTx = residuals obs s.lat s.lon altM s.tTx :=
    residuals_move θ c obs altM s.lat s.lon s.tTx
  have hgate : (!F64.isFinite (s.move θ c).lat || !F64.isFinite (s.move θ c).lon ||
      decide (90.0 < F64.abs (s.move θ c).lat)) =
    (!F64.isFinite s.lat || !F64.isFinite s.lon || decide (90.0 < F64.abs s.lat)) := rfl
  unfold finish
  simp only
  rw [hres, hgate]
  split_ifs
  · rfl
  · rfl
  · exact estimate_move θ c obs altM root s _ _

/-- The solve of the moved problem, the start moved as a plain number. -/
theorem solveRoot_move (root : ℝ → ℝ) (init : Geodetic ℝ) :
    solveRoot root (obs.map (Observation.move θ c)) altM
        { init with lonDeg := init.lonDeg + θ } =
      (solveRoot root obs altM init).map (Solution.move θ c) := by
  rw [solveRoot_eq, solveRoot_eq, List.length_map]
  by_cases hlen : obs.length < 4
  · rw [if_pos hlen, if_pos hlen]
    rfl
  · rw [if_neg hlen, if_neg hlen, foldMin_move]
    have hne : obs.map Observation.tS ≠ [] := by
      intro h
      rw [List.map_eq_nil_iff] at h
      rw [h] at hlen
      exact hlen (by simp)
    obtain ⟨t, ht⟩ := foldMin_of_ne_nil hne
    have hstart : startAt { init with lonDeg := init.lonDeg + θ } (t + c) =
        (startAt init t).move θ c := by
      unfold startAt Iterate.move
      simp only [sub_add_eq_add_sub]
    rw [ht, Option.map_some, Option.getD_some, Option.getD_some, hstart, newton_move,
      Option.bind_map, Option.map_bind]
    exact Option.bind_congr fun s _ => finish_move θ c obs altM root s

end

/-- **The fix moves with the problem.** The globe turned by any angle and the timebase moved by any
    time: the fix is the fix turned and moved, with the same error estimates, residuals and count
    of iterations, or there is none in either case. -/
theorem solve_move (θ c : ℝ) (obs : List (Observation ℝ)) (altM : ℝ) (init : Geodetic ℝ) :
    solve (obs.map (Observation.move θ c)) altM (init.turn θ) =
      (solve obs altM init).map (Solution.move θ c) := by
  obtain ⟨k, hk⟩ : ∃ k : ℤ, normLon (init.lonDeg + θ) = init.lonDeg + (θ - 360 * k) :=
    ⟨_, by rw [normLon_eq]; ring⟩
  have hturn : init.turn θ = { init with lonDeg := init.lonDeg + (θ - 360 * k) } := by
    unfold Geodetic.turn
    rw [hk]
  have hmove : Solution.move (θ - 360 * k) c = Solution.move θ c := by
    funext s
    unfold Solution.move Geodetic.turn
    rw [← add_sub_assoc, normLon_sub_turns]
  rw [hturn, ← move_sub_turns θ c k, ← hmove]
  exact solveRoot_move _ c obs altM _ init

/-! ## Observations in another order -/

section
variable {obs obs' : List (Observation ℝ)} (h : obs.Perm obs') (altM : ℝ)
include h

theorem gram_perm (f : Observation ℝ → Fin 3 → ℝ) : gram (obs.map f) = gram (obs'.map f) := by
  refine (h.map f).foldl_eq' (fun x _ y _ jtj => ?_) _
  ext a b
  exact add_right_comm _ _ _

theorem gradient_perm (f : Observation ℝ → (Fin 3 → ℝ) × ℝ) :
    gradient (obs.map f) = gradient (obs'.map f) := by
  refine (h.map f).foldl_eq' (fun x _ y _ acc => ?_) _
  funext a
  exact sub_right_comm _ _ _

theorem sum_perm (f : Observation ℝ → ℝ) : F64.sum (obs.map f) = F64.sum (obs'.map f) :=
  (h.map f).foldl_eq' (fun _ _ _ _ _ => add_right_comm _ _ _) _

theorem foldMin_perm :
    F64.foldMin (obs.map Observation.tS) = F64.foldMin (obs'.map Observation.tS) := by
  refine (h.map Observation.tS).foldl_eq' (fun x _ y _ acc => ?_) _
  cases acc with
  | none => exact congrArg some (min_comm x y)
  | some a => exact congrArg some (min_right_comm a x y)

theorem newtonStep_perm (s : Iterate ℝ) : newtonStep obs altM s = newtonStep obs' altM s := by
  rw [newtonStep_eq, newtonStep_eq, gram_perm h, gradient_perm h]

theorem newton_perm (fuel : ℕ) (s : Iterate ℝ) :
    newton obs altM fuel s = newton obs' altM fuel s := by
  induction fuel generalizing s with
  | zero => rfl
  | succ fuel ih =>
    rw [newton, newton, newtonStep_perm h]
    refine Option.bind_congr fun p _ => ?_
    simp only [ih]

end

/-- The fit is the same but for the order of the residuals. -/
structure SameFit (obs obs' : List (Observation ℝ)) (s s' : Solution ℝ) : Prop where
  rest : s' = { s with residualsS := s'.residualsS }
  residuals : (obs.zip s.residualsS).Perm (obs'.zip s'.residualsS)

namespace SameFit

variable {obs obs' : List (Observation ℝ)} {s s' : Solution ℝ}

theorem pos (h : SameFit obs obs' s s') : s'.pos = s.pos := by rw [h.rest]

theorem rmsS (h : SameFit obs obs' s s') : s'.rmsS = s.rmsS := by rw [h.rest]

theorem errGeomM (h : SameFit obs obs' s s') : s'.errGeomM = s.errGeomM := by rw [h.rest]

end SameFit

section
variable {obs obs' : List (Observation ℝ)} (h : obs.Perm obs') (altM : ℝ)
include h

/-- The fit where the iteration ended. -/
theorem estimate_perm (root : ℝ → ℝ) (s : Iterate ℝ) (rms : ℝ) (f : Observation ℝ → ℝ) :
    Option.Rel (SameFit obs obs') (estimate root obs altM s rms (obs.map f))
      (estimate root obs' altM s rms (obs'.map f)) := by
  have hvar (r : Observation ℝ → ℝ) :
      sigma2 (obs.map r) obs.length = sigma2 (obs'.map r) obs'.length := by
    unfold sigma2
    rw [List.map_map, List.map_map, sum_perm h, h.length_eq]
  unfold estimate
  simp only [residualsW_eq_map, hvar, normalMatrix, jacobian_eq_map, gram_perm h]
  cases invert3 (gram (obs'.map (jacobianRow s.lat (F64.remEuclid (s.lon + 540.0) 360.0 - 180.0)
      altM s.tTx))) with
  | none => exact .none
  | some cov =>
    refine .some ⟨rfl, ?_⟩
    have hzip (xs : List (Observation ℝ)) : xs.zip (xs.map f) = xs.map fun o => (o, f o) := by
      rw [← List.zip_map', List.map_id']
    simp only [hzip]
    exact h.map _

theorem finish_perm (root : ℝ → ℝ) (s : Iterate ℝ) :
    Option.Rel (SameFit obs obs') (finish root obs altM s) (finish root obs' altM s) := by
  have hrms : F64.sqrt (F64.sum ((residuals obs s.lat s.lon altM s.tTx).map fun x => x * x) /
        F64.ofNat (residuals obs s.lat s.lon altM s.tTx).length) =
      F64.sqrt (F64.sum ((residuals obs' s.lat s.lon altM s.tTx).map fun x => x * x) /
        F64.ofNat (residuals obs' s.lat s.lon altM s.tTx).length) := by
    unfold residuals
    rw [List.map_map, List.map_map, sum_perm h, List.length_map, List.length_map, h.length_eq]
  unfold finish
  simp only
  rw [hrms]
  split_ifs
  · exact .none
  · exact .none
  · exact estimate_perm h altM root s _ _

/-- The fit is the same in any order of the observations. -/
theorem solve_sameFit (init : Geodetic ℝ) :
    Option.Rel (SameFit obs obs') (solve obs altM init) (solve obs' altM init) := by
  unfold solve
  rw [solveRoot_eq, solveRoot_eq, h.length_eq, foldMin_perm h]
  split
  · exact .none
  · rw [newton_perm h]
    cases newton obs' altM maxIter _ with
    | none => exact .none
    | some s => exact finish_perm h altM _ s

/-! ### The lobe test -/

theorem centroid_perm : centroid obs = centroid obs' := by
  unfold centroid
  rw [h.length_eq]
  refine h.foldl_eq' (fun x _ y _ acc => ?_) _
  simp only [Ecef.mk.injEq]
  exact ⟨add_right_comm _ _ _, add_right_comm _ _ _, add_right_comm _ _ _⟩

theorem scatterMul_perm : scatterMul (offsets obs) = scatterMul (offsets obs') := by
  have hentry (f g : Ecef ℝ → ℝ) :
      scatterEntry (offsets obs) f g = scatterEntry (offsets obs') f g := by
    unfold scatterEntry offsets
    rw [centroid_perm h]
    refine (h.map _).foldl_eq' (fun x _ y _ acc => ?_) _
    exact add_right_comm _ _ _
  funext u
  unfold scatterMul
  simp only [hentry]

theorem mirror_perm (p : Geodetic ℝ) :
    mirrorAcrossReceivers obs p = mirrorAcrossReceivers obs' p := by
  have haxis : axis obs = axis obs' := by
    unfold axis axisStep
    rw [scatterMul_perm h]
  rw [mirrorAcrossReceivers_eq, mirrorAcrossReceivers_eq, mirrorPoint, mirrorPoint, haxis,
    centroid_perm h]

theorem acrossTheLine_perm {s s' : Solution ℝ} (hs : SameFit obs obs' s s') :
    Option.Rel (SameFit obs obs') (acrossTheLine solve obs altM s)
      (acrossTheLine solve obs' altM s') := by
  unfold acrossTheLine
  rw [sum_perm h, h.length_eq, mirror_perm h, hs.pos, hs.rmsS, hs.errGeomM]
  simp only
  split
  · exact .some hs
  · cases mirrorAcrossReceivers obs' s.pos with
    | none => exact .none
    | some mirror =>
      simp only
      have hother := solve_sameFit h altM mirror
      generalize solve obs altM mirror = fit at hother ⊢
      generalize solve obs' altM mirror = fit' at hother ⊢
      cases hother with
      | none => exact .some hs
      | @some other other' ho =>
        simp only [ho.pos, ho.rmsS, ho.errGeomM]
        split
        · exact .some hs
        · -- the better of the two, by the same comparison
          by_cases hlt : other.rmsS < s.rmsS
          · simp only [if_pos hlt, ho.rmsS, hs.rmsS]
            split
            · exact .none
            · exact .some ho
          · simp only [if_neg hlt, ho.rmsS, hs.rmsS]
            split
            · exact .none
            · exact .some hs

theorem fullFit_perm (init : Geodetic ℝ) : Option.Rel (SameFit obs obs')
    (fullFit solve mirrorAcrossReceivers Geodetic.haversineM obs altM init)
    (fullFit solve mirrorAcrossReceivers Geodetic.haversineM obs' altM init) := by
  have hfull := solve_sameFit h altM init
  unfold fullFit
  simp only [← acrossTheLine_eq]
  generalize solve obs altM init = fit at hfull ⊢
  generalize solve obs' altM init = fit' at hfull ⊢
  cases hfull with
  | none => exact .none
  | some hs => exact acrossTheLine_perm h altM hs

/-! ### Leave-one-out -/

/-- The residual of the fit without some of the observations. -/
noncomputable def rmsOf (init : Geodetic ℝ) (obs : List (Observation ℝ)) : Option ℝ :=
  (solve obs altM init).map Solution.rmsS

omit h in
theorem map_rmsS_of_rel {a b : Option (Solution ℝ)} (hab : Option.Rel (SameFit obs obs') a b) :
    a.map Solution.rmsS = b.map Solution.rmsS := by
  cases hab with
  | none => rfl
  | some hs => exact congrArg some hs.rmsS.symm

theorem rmsOf_perm (init : Geodetic ℝ) : rmsOf altM init obs = rmsOf altM init obs' :=
  map_rmsS_of_rel (solve_sameFit h altM init)

end

/-- The smaller of two residuals, where there are any. -/
noncomputable def lesser : Option ℝ → Option ℝ → Option ℝ
  | b, none => b
  | none, some r => some r
  | some b, some r => some (min b r)

theorem lesser_right_comm (a b c : Option ℝ) : lesser (lesser a b) c = lesser (lesser a c) b := by
  cases b with
  | none => cases c <;> rfl
  | some b =>
    cases c with
    | none => rfl
    | some c =>
      cases a with
      | none => exact congrArg some (min_comm b c)
      | some a => exact congrArg some (min_right_comm a b c)

section
variable (altM : ℝ) (init : Geodetic ℝ)

theorem leaveOneOut_rmsS (obs : List (Observation ℝ)) (best : Option (Solution ℝ)) (skip : ℕ) :
    (leaveOneOut solve obs altM init best skip).map Solution.rmsS =
      lesser (best.map Solution.rmsS) (rmsOf altM init (obs.eraseIdx skip)) := by
  unfold leaveOneOut rmsOf
  cases solve (obs.eraseIdx skip) altM init with
  | none => cases best <;> rfl
  | some s =>
    cases best with
    | none => rfl
    | some b =>
      simp only [Option.map_some, lesser]
      split
      · next hlt => rw [min_eq_right hlt.le, Option.map_some]
      · next hlt => rw [min_eq_left (not_lt.1 hlt), Option.map_some]

theorem foldl_leaveOneOut_rmsS (obs : List (Observation ℝ)) (skips : List ℕ)
    (best : Option (Solution ℝ)) :
    (skips.foldl (leaveOneOut solve obs altM init) best).map Solution.rmsS =
      (skips.map fun i => rmsOf altM init (obs.eraseIdx i)).foldl lesser
        (best.map Solution.rmsS) := by
  induction skips generalizing best with
  | nil => rfl
  | cons skip skips ih =>
    rw [List.foldl_cons, ih, leaveOneOut_rmsS]
    rfl

open Classical in
/-- The observations left out one by one. -/
theorem rmsOf_eraseIdx (obs : List (Observation ℝ)) :
    ((List.range obs.length).map fun i => rmsOf altM init (obs.eraseIdx i)) =
      obs.map fun o => rmsOf altM init (obs.erase o) := by
  refine List.ext_getElem (by simp) fun i h1 h2 => ?_
  have hi : i < obs.length := by simpa using h2
  rw [List.getElem_map, List.getElem_map, List.getElem_range]
  refine rmsOf_perm (List.Perm.cons_inv (a := obs[i]) ?_) altM init
  exact (List.getElem_cons_eraseIdx_perm hi).trans (List.perm_cons_erase (List.getElem_mem hi))

end

section
variable {obs obs' : List (Observation ℝ)} (h : obs.Perm obs') (altM : ℝ)
include h

open Classical in
/-- The best of the fits without one observation. -/
theorem leaveOneOut_perm (init : Geodetic ℝ) {best best' : Option (Solution ℝ)}
    (hbest : best.map Solution.rmsS = best'.map Solution.rmsS) :
    ((List.range obs.length).foldl (leaveOneOut solve obs altM init) best).map Solution.rmsS =
      ((List.range obs'.length).foldl (leaveOneOut solve obs' altM init) best').map
        Solution.rmsS := by
  have hmap : obs.map (fun o => rmsOf altM init (obs.erase o)) =
      obs.map fun o => rmsOf altM init (obs'.erase o) :=
    List.map_congr_left fun o _ => rmsOf_perm (h.erase o) altM init
  rw [foldl_leaveOneOut_rmsS, foldl_leaveOneOut_rmsS, rmsOf_eraseIdx, rmsOf_eraseIdx, hbest, hmap]
  exact (h.map _).foldl_eq' (fun x _ y _ z => lesser_right_comm z x y) _

theorem solveRobust_perm (init : Geodetic ℝ) :
    (obs.length < 5 → Option.Rel (SameFit obs obs') (solveRobust solve obs altM init)
      (solveRobust solve obs' altM init)) ∧
    (solveRobust solve obs altM init).map Solution.rmsS =
      (solveRobust solve obs' altM init).map Solution.rmsS := by
  have hfull := fullFit_perm h altM init
  have hrms := map_rmsS_of_rel hfull
  rw [solveRobust_eq, solveRobust_eq]
  unfold solveRobustBy
  generalize fullFit solve _ _ obs altM init = full at hfull hrms ⊢
  generalize fullFit solve _ _ obs' altM init = full' at hfull hrms ⊢
  have htrigger : triggers full = triggers full' := by
    cases hfull with
    | none => rfl
    | some hs => simp only [triggers, hs.rmsS]
  simp only [htrigger, h.length_eq]
  constructor
  · intro hlen
    rw [if_pos (by simp [hlen]), if_pos (by simp [hlen])]
    exact hfull
  · split
    · exact hrms
    · have hloo := leaveOneOut_perm h altM init hrms
      rw [h.length_eq] at hloo
      exact hloo

end

/-- **The order of the observations does not matter.** In any order the inner solve gives the same
    fit with its residuals in that order; so does the robust solve of four observations; and of
    any number it gives a fit in every order or in none, and one as good. -/
theorem solve_perm {obs obs' : List (Observation ℝ)} (h : obs.Perm obs') (altM : ℝ)
    (init : Geodetic ℝ) :
    Option.Rel (SameFit obs obs') (solve obs altM init) (solve obs' altM init) ∧
    (obs.length < 5 → Option.Rel (SameFit obs obs') (solveRobust solve obs altM init)
      (solveRobust solve obs' altM init)) ∧
    (solveRobust solve obs altM init).map Solution.rmsS =
      (solveRobust solve obs' altM init).map Solution.rmsS :=
  ⟨solve_sameFit h altM init, solveRobust_perm h altM init⟩

/-- Four receivers about a point of the equator. -/
noncomputable def fourObs : List (Observation ℝ) :=
  [⟨⟨6378137.0, 100000.0, 0.0⟩, 0.001, 1e-6⟩, ⟨⟨6378137.0, -100000.0, 0.0⟩, 0.001, 1e-6⟩,
    ⟨⟨6378137.0, 0.0, 100000.0⟩, 0.001, 1e-6⟩, ⟨⟨6378137.0, 0.0, -100000.0⟩, 0.001, 1e-6⟩]

theorem solve_perm_reverse :
    Option.Rel (SameFit fourObs fourObs.reverse) (solve fourObs 10000.0 ⟨0.0, 0.0, 0.0⟩)
        (solve fourObs.reverse 10000.0 ⟨0.0, 0.0, 0.0⟩) ∧
      (fourObs.length < 5 →
        Option.Rel (SameFit fourObs fourObs.reverse)
          (solveRobust solve fourObs 10000.0 ⟨0.0, 0.0, 0.0⟩)
          (solveRobust solve fourObs.reverse 10000.0 ⟨0.0, 0.0, 0.0⟩)) ∧
      (solveRobust solve fourObs 10000.0 ⟨0.0, 0.0, 0.0⟩).map Solution.rmsS =
        (solveRobust solve fourObs.reverse 10000.0 ⟨0.0, 0.0, 0.0⟩).map Solution.rmsS :=
  solve_perm fourObs.reverse_perm.symm 10000.0 ⟨0.0, 0.0, 0.0⟩

/-! ## The origin of the timebase -/

noncomputable def Observation.shift (c : ℝ) (o : Observation ℝ) : Observation ℝ :=
  { o with tS := o.tS + c }

noncomputable def Solution.shift (c : ℝ) (s : Solution ℝ) : Solution ℝ :=
  { s with tTx := s.tTx + c }

theorem move_zero (c : ℝ) : Observation.move 0 c = Observation.shift c := by
  have h0 : F64.toRadians (0 : ℝ) = 0 := zero_mul _
  have hcos : F64.cos (0 : ℝ) = 1 := Real.cos_zero
  have hsin : F64.sin (0 : ℝ) = 0 := Real.sin_zero
  funext o
  unfold Observation.move Observation.shift Ecef.turn
  simp only [h0, hcos, hsin, mul_one, mul_zero, sub_zero, zero_add]

/-- The longitude of a fit is in `[-180, 180)`. -/
theorem solve_lonDeg {obs : List (Observation ℝ)} {altM : ℝ} {init : Geodetic ℝ} {s : Solution ℝ}
    (h : solve obs altM init = some s) : ∃ x, s.pos.lonDeg = normLon x := by
  unfold solve at h
  rw [solveRoot_eq] at h
  obtain ⟨it, -, hfinish⟩ := Option.bind_eq_some_iff.1 (Option.ite_none_left_eq_some.1 h).2
  unfold finish at hfinish
  have hest := (Option.ite_none_left_eq_some.1 (Option.ite_none_left_eq_some.1 hfinish).2).2
  obtain ⟨cov, -, rfl⟩ := Option.map_eq_some_iff.1 hest
  exact ⟨it.lon, rfl⟩

section
variable (c : ℝ) (obs : List (Observation ℝ)) (altM : ℝ)

theorem solve_shift (init : Geodetic ℝ) : solve (obs.map (Observation.shift c)) altM init =
    (solve obs altM init).map (Solution.shift c) := by
  have h := solveRoot_move 0 c obs altM (fun v => F64.sqrt (F64.abs v)) init
  rw [move_zero, add_zero] at h
  refine h.trans (Option.map_congr fun s hs => ?_)
  obtain ⟨x, hx⟩ := solve_lonDeg hs
  have hlon : normLon (s.pos.lonDeg + 0) = s.pos.lonDeg := by
    rw [hx, normLon_normLon_add, add_zero]
  unfold Solution.move Solution.shift Geodetic.turn
  rw [hlon]

theorem mirror_shift (p : Geodetic ℝ) :
    mirrorAcrossReceivers (obs.map (Observation.shift c)) p = mirrorAcrossReceivers obs p := by
  have hcentroid : centroid (obs.map (Observation.shift c)) = centroid obs := by
    unfold centroid
    rw [List.length_map, List.foldl_map]
    rfl
  have hoffsets : offsets (obs.map (Observation.shift c)) = offsets obs := by
    unfold offsets
    rw [hcentroid, List.map_map]
    rfl
  rw [mirrorAcrossReceivers_eq, mirrorAcrossReceivers_eq, mirrorPoint, mirrorPoint, axis, axis,
    hoffsets, hcentroid]

theorem acrossTheLine_shift (s : Solution ℝ) :
    acrossTheLine solve (obs.map (Observation.shift c)) altM (s.shift c) =
      (acrossTheLine solve obs altM s).map (Solution.shift c) := by
  have herr : (obs.map (Observation.shift c)).map (fun o => o.errS * o.errS) =
      obs.map fun o => o.errS * o.errS := by
    rw [List.map_map]
    rfl
  have hpos : (s.shift c).pos = s.pos := rfl
  have hrms (s : Solution ℝ) : (s.shift c).rmsS = s.rmsS := rfl
  have hgeom (s : Solution ℝ) : (s.shift c).errGeomM = s.errGeomM := rfl
  unfold acrossTheLine
  rw [herr, List.length_map, hpos, mirror_shift, hrms, hgeom]
  simp only
  split
  · rfl
  · cases mirrorAcrossReceivers obs s.pos with
    | none => rfl
    | some mirror =>
      simp only [solve_shift]
      cases solve obs altM mirror with
      | none => rfl
      | some other =>
        have hother : (other.shift c).pos = other.pos := rfl
        simp only [Option.map_some, hother, hgeom, hrms]
        split
        · rfl
        · by_cases hlt : other.rmsS < s.rmsS
          · simp only [if_pos hlt, hrms]
            split
            · rfl
            · rfl
          · simp only [if_neg hlt, hrms]
            split
            · rfl
            · rfl

theorem leaveOneOut_shift (init : Geodetic ℝ) (best : Option (Solution ℝ)) (skip : ℕ) :
    leaveOneOut solve (obs.map (Observation.shift c)) altM init (best.map (Solution.shift c)) skip =
      (leaveOneOut solve obs altM init best skip).map (Solution.shift c) := by
  have hrms (s : Solution ℝ) : (s.shift c).rmsS = s.rmsS := rfl
  unfold leaveOneOut
  rw [List.eraseIdx_map, solve_shift]
  cases solve (obs.eraseIdx skip) altM init with
  | none => rfl
  | some s =>
    cases best with
    | none => rfl
    | some b =>
      simp only [Option.map_some, hrms]
      split
      · rfl
      · rfl

theorem foldl_leaveOneOut_shift (init : Geodetic ℝ) (skips : List ℕ)
    (best : Option (Solution ℝ)) :
    skips.foldl (leaveOneOut solve (obs.map (Observation.shift c)) altM init)
        (best.map (Solution.shift c)) =
      (skips.foldl (leaveOneOut solve obs altM init) best).map (Solution.shift c) := by
  induction skips generalizing best with
  | nil => rfl
  | cons skip skips ih => rw [List.foldl_cons, List.foldl_cons, leaveOneOut_shift, ih]

theorem fullFit_shift (init : Geodetic ℝ) :
    fullFit solve mirrorAcrossReceivers Geodetic.haversineM (obs.map (Observation.shift c)) altM
        init =
      (fullFit solve mirrorAcrossReceivers Geodetic.haversineM obs altM init).map
        (Solution.shift c) := by
  unfold fullFit
  simp only [← acrossTheLine_eq, solve_shift]
  cases solve obs altM init with
  | none => rfl
  | some s => exact acrossTheLine_shift c obs altM s

end

/-- **The robust solve reads time differences.** With another origin of the timebase it gives the
    same fix, its transmit time in that timebase, through the same lobe test and the same choice of
    the observation to leave out. -/
theorem solveRobust_shift (c : ℝ) (obs : List (Observation ℝ)) (altM : ℝ) (init : Geodetic ℝ) :
    solveRobust solve (obs.map (Observation.shift c)) altM init =
      (solveRobust solve obs altM init).map (Solution.shift c) := by
  have htrigger (full : Option (Solution ℝ)) :
      triggers (full.map (Solution.shift c)) = triggers full := by
    cases full with
    | none => rfl
    | some s => rfl
  rw [solveRobust_eq, solveRobust_eq]
  unfold solveRobustBy
  simp only [fullFit_shift, htrigger, List.length_map, foldl_leaveOneOut_shift]
  split
  · rfl
  · rfl

end Mlatd
