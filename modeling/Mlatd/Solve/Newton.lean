/-
  The Gauss-Newton iteration of the position solve (solve.rs, solve): latitude, longitude and
  transmit time, the altitude fixed, and the error estimate of the fit.

  An array `[[f64; 3]; 3]` is a `Matrix (Fin 3) (Fin 3) F`.
-/
import Mathlib.Data.Matrix.Basic
import Mlatd.Solve.Lobes

namespace Mlatd

variable {F : Type} [F64 F]

def maxIter : ℕ := 15

/-- 3 µs: 900 m of pseudorange scatter. -/
def maxRmsS : F := 3e-6

/-! ## The 3×3 system -/

/-- The determinant, expanded along the first row. -/
def det3 (m : Matrix (Fin 3) (Fin 3) F) : F :=
  m 0 0 * (m 1 1 * m 2 2 - m 1 2 * m 2 1) - m 0 1 * (m 1 0 * m 2 2 - m 1 2 * m 2 0) +
    m 0 2 * (m 1 0 * m 2 1 - m 1 1 * m 2 0)

/-- Cramer's rule. -/
def solve3 (a : Matrix (Fin 3) (Fin 3) F) (b : Fin 3 → F) : Option (Fin 3 → F) :=
  let det := det3 a
  if F64.abs det < 1e-30 then none
  else some fun k =>
    let m := Matrix.of fun row col => if col = k then b row else a row col
    det3 m / det

/-- Column by column; `none` when singular. -/
def invert3 (a : Matrix (Fin 3) (Fin 3) F) : Option (Matrix (Fin 3) (Fin 3) F) :=
  let e (k : Fin 3) : Fin 3 → F := fun i => if i = k then 1.0 else 0.0
  (List.finRange 3).foldlM (fun out k => (solve3 a (e k)).map fun col =>
    Matrix.of fun r c => if c = k then col r else out r c) (Matrix.of fun _ _ => 0.0)

/-! ## Residuals and their derivative -/

/-- Predicted minus measured arrival, s. -/
def residuals (obs : List (Observation F)) (lat lon altM tTx : F) : List F :=
  let p := (Geodetic.mk lat lon altM).toEcef
  obs.map fun o =>
    let d := F64.sqrt (F64.sq (p.x - o.rx.x) + F64.sq (p.y - o.rx.y) + F64.sq (p.z - o.rx.z))
    tTx + d / cMps - o.tS

/-- Each over the timing error stated for it. -/
def residualsW (obs : List (Observation F)) (lat lon altM tTx : F) : List F :=
  List.zipWith (fun r o => r / F64.max o.errS 1e-9) (residuals obs lat lon altM tTx) obs

/-- The numeric Jacobian of the weighted residuals, a row for each observation. The steps are 1 m
    in position and 0.1 µs in time. -/
def jacobian (obs : List (Observation F)) (lat lon altM tTx : F) : List (Fin 3 → F) :=
  let r := residualsW obs lat lon altM tTx
  let dlat : F := 1e-5
  let dlon : F := 1e-5 / F64.max (F64.cos (F64.toRadians lat)) 0.2
  let dt : F := 1e-7
  let jl := residualsW obs (lat + dlat) lon altM tTx
  let jo := residualsW obs lat (lon + dlon) altM tTx
  let jt := residualsW obs lat lon altM (tTx + dt)
  (List.range obs.length).map fun i =>
    ![(jl.getD i 0.0 - r.getD i 0.0) / dlat, (jo.getD i 0.0 - r.getD i 0.0) / dlon,
      (jt.getD i 0.0 - r.getD i 0.0) / dt]

/-- `JᵀJ`, row after row. -/
def gram (rows : List (Fin 3 → F)) : Matrix (Fin 3) (Fin 3) F :=
  rows.foldl (fun jtj ji => Matrix.of fun a b => jtj a b + ji a * ji b) (Matrix.of fun _ _ => 0.0)

def normalMatrix (obs : List (Observation F)) (lat lon altM tTx : F) :
    Matrix (Fin 3) (Fin 3) F :=
  gram (jacobian obs lat lon altM tTx)

/-! ## The iteration -/

/-- The unknowns, and the iterations done. -/
structure Iterate (F : Type) where
  lat : F
  lon : F
  tTx : F
  iters : ℕ

/-- The unknowns after a step, no larger than 1 degree and 1 ms; `true` when it is the last. -/
def Iterate.stepBy (s : Iterate F) (step : Fin 3 → F) : Iterate F × Bool :=
  let sl := F64.clamp (step 0) (-1.0) 1.0
  let so := F64.clamp (step 1) (-1.0) 1.0
  let st := F64.clamp (step 2) (-1e-3) 1e-3
  ({ lat := s.lat + sl, lon := s.lon + so, tTx := s.tTx + st, iters := s.iters + 1 },
    F64.abs sl < 1e-9 ∧ F64.abs so < 1e-9 ∧ F64.abs st < 1e-12)

/-- The step that the normal equations give. -/
def newtonStep (obs : List (Observation F)) (altM : F) (s : Iterate F) :
    Option (Iterate F × Bool) :=
  let r := residualsW obs s.lat s.lon altM s.tTx
  let rows := jacobian obs s.lat s.lon altM s.tTx
  let jtr : Fin 3 → F := (rows.zip r).foldl (fun acc x a => acc a - x.1 a * x.2) fun _ => 0.0
  (solve3 (gram rows) jtr).map s.stepBy

/-- At most `fuel` steps. -/
def newton (obs : List (Observation F)) (altM : F) : ℕ → Iterate F → Option (Iterate F)
  | 0, s => some s
  | fuel + 1, s =>
    (newtonStep obs altM s).bind fun (s', last) =>
      if last then some s' else newton obs altM fuel s'

/-! ## The error estimate -/

/-- The variance that the weighted residuals of `n` observations show. -/
def sigma2 (r : List F) (n : ℕ) : F :=
  let dof := F64.max (F64.ofNat n - 3.0) 1.0
  F64.sum (r.map fun x => x * x) / dof

/-- The horizontal variance of the covariance `cov` at latitude `lat`, m². -/
def geomM2 (cov : Matrix (Fin 3) (Fin 3) F) (lat : F) : F :=
  let mPerDegLat : F := 111320.0
  let mPerDegLon : F := 111320.0 * F64.max (F64.cos (F64.toRadians lat)) 0.05
  cov 0 0 * mPerDegLat * mPerDegLat + cov 1 1 * mPerDegLon * mPerDegLon

/-- The fit where the iteration ended, `none` when its normal matrix does not invert. `root` is what
    is taken of a variance to report an error. -/
def estimate (root : F → F) (obs : List (Observation F)) (altM : F) (s : Iterate F) (rms : F)
    (finalResid : List F) : Option (Solution F) :=
  let lon := F64.remEuclid (s.lon + 540.0) 360.0 - 180.0
  let r := residualsW obs s.lat lon altM s.tTx
  (invert3 (normalMatrix obs s.lat lon altM s.tTx)).map fun cov =>
    { pos := ⟨s.lat, lon, altM⟩
      rmsS := rms
      errEstM := root (sigma2 r obs.length * geomM2 cov s.lat)
      errGeomM := root (geomM2 cov s.lat)
      iterations := s.iters
      tTx := s.tTx
      residualsS := finalResid }

/-- `solve` with any root. -/
def solveRoot (root : F → F) (obs : List (Observation F)) (altM : F) (init : Geodetic F) :
    Option (Solution F) :=
  if obs.length < 4 then none
  else
    -- With an observation there is a first arrival.
    let tMin := (F64.foldMin (obs.map Observation.tS)).getD 0.0
    let start : Iterate F := ⟨init.latDeg, init.lonDeg, tMin - 200e3 / cMps, 0⟩
    (newton obs altM maxIter start).bind fun s =>
      if !F64.isFinite s.lat || !F64.isFinite s.lon || decide (90.0 < F64.abs s.lat) then none
      else
        let finalResid := residuals obs s.lat s.lon altM s.tTx
        let rms :=
          F64.sqrt (F64.sum (finalResid.map fun x => x * x) / F64.ofNat finalResid.length)
        if maxRmsS < rms then none else estimate root obs altM s rms finalResid

/-- The inner solve of `solveRobust`. -/
def solve : Solver F := solveRoot fun v => F64.sqrt (F64.abs v)

theorem estimate_residualsS {root : F → F} {obs : List (Observation F)} {altM : F} {s : Iterate F}
    {rms : F} {finalResid : List F} {sol : Solution F}
    (h : estimate root obs altM s rms finalResid = some sol) : sol.residualsS = finalResid := by
  obtain ⟨cov, -, rfl⟩ := Option.map_eq_some_iff.1 h
  rfl

/-- A fit has one residual for each observation. -/
theorem solve_measures : Solver.Measures (solve : Solver F) := by
  intro obs altM init sol h
  unfold solve solveRoot at h
  split at h
  · cases h
  · obtain ⟨s, -, hs⟩ := Option.bind_eq_some_iff.1 h
    split at hs
    · cases hs
    · have hfit := (Option.ite_none_left_eq_some.1 hs).2
      rw [estimate_residualsS hfit, residuals, List.length_map]

end Mlatd
