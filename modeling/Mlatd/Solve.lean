/-
  The position solve (solve.rs) around the inner Gauss-Newton iteration: the mirror-lobe test and
  the leave-one-out retry. The iteration itself is a parameter `solve`, a function of the
  observations, the fixed altitude and the start point.
-/
import Mlatd.Core

namespace Mlatd

variable {F : Type} [F64 F]

structure Observation (F : Type) where
  rx : Ecef F
  /-- Arrival time in the reference timebase, s. -/
  tS : F
  /-- Expected timing error, s. -/
  errS : F

instance : Inhabited (Observation F) := ⟨⟨default, 0.0, 0.0⟩⟩

structure Solution (F : Type) where
  pos : Geodetic F
  /-- RMS residual of the fit, s (unweighted). -/
  rmsS : F
  /-- Covariance-derived horizontal error estimate, m. -/
  errEstM : F
  /-- The same covariance, not rescaled by the fit's residuals, m. -/
  errGeomM : F
  iterations : ℕ
  /-- Solved transmit time in the common timebase. -/
  tTx : F
  /-- Unweighted residuals (predicted minus measured), in input order. -/
  residualsS : List F

/-- The inner solve: observations, altitude, start point. -/
abbrev Solver (F : Type) := List (Observation F) → F → Geodetic F → Option (Solution F)

def lobeTestRmsFactor : F := 3.0
def lobeAmbiguousFactor : F := 3.0

/-- `p` reflected across the receivers' principal axis; `none` without spread. -/
def mirrorAcrossReceivers (obs : List (Observation F)) (p : Geodetic F) : Option (Geodetic F) :=
  let n : F := F64.ofNat obs.length
  let c : Ecef F := obs.foldl (fun a o =>
    ⟨a.x + o.rx.x / n, a.y + o.rx.y / n, a.z + o.rx.z / n⟩) ⟨0.0, 0.0, 0.0⟩
  let ds : List (Ecef F) := obs.map fun o => ⟨o.rx.x - c.x, o.rx.y - c.y, o.rx.z - c.z⟩
  let m (f g : Ecef F → F) : F := ds.foldl (fun acc d => acc + f d * g d) 0.0
  let power : Option (Ecef F) → Option (Ecef F) := fun u => u.bind fun u =>
    let row (f : Ecef F → F) : F := m f Ecef.x * u.x + m f Ecef.y * u.y + m f Ecef.z * u.z
    let v : Ecef F := ⟨row Ecef.x, row Ecef.y, row Ecef.z⟩
    let norm := F64.sqrt (v.x * v.x + v.y * v.y + v.z * v.z)
    if norm < 1.0 then none else some ⟨v.x / norm, v.y / norm, v.z / norm⟩
  match power^[50] (some ⟨1.0, 1.0, 1.0⟩) with
  | none => none
  | some u =>
    let pe := p.toEcef
    let d : Ecef F := ⟨pe.x - c.x, pe.y - c.y, pe.z - c.z⟩
    let along := d.x * u.x + d.y * u.y + d.z * u.z
    let mirrored := Ecef.toGeodetic
      { x := c.x + 2.0 * along * u.x - d.x
        y := c.y + 2.0 * along * u.y - d.y
        z := c.z + 2.0 * along * u.z - d.z }
    some { mirrored with altM := p.altM }

/-- The lobe test: the better of the fit and the fit from the mirrored start, `none` when the two
    fit alike. -/
def acrossTheLine (solve : Solver F) (obs : List (Observation F)) (altM : F) (sol : Solution F) :
    Option (Solution F) :=
  let expectedRms :=
    F64.sqrt (F64.sum (obs.map fun o => o.errS * o.errS) / F64.ofNat obs.length)
  if 4 < obs.length ∧ sol.rmsS ≤ lobeTestRmsFactor * expectedRms then some sol
  else
    match mirrorAcrossReceivers obs sol.pos with
    | none => none
    | some mirror =>
      match solve obs altM mirror with
      | none => some sol
      | some other =>
        if other.pos.haversineM sol.pos <
            3.0 * F64.max (F64.max sol.errGeomM other.errGeomM) 100.0 then some sol
        else
          let (good, bad) := if other.rmsS < sol.rmsS then (other, sol) else (sol, other)
          if bad.rmsS < lobeAmbiguousFactor * good.rmsS then none else some good

/-- The better of the best fit so far and the fit without observation `skip`. -/
def leaveOneOut (solve : Solver F) (obs : List (Observation F)) (altM : F) (init : Geodetic F)
    (best : Option (Solution F)) (skip : ℕ) : Option (Solution F) :=
  match solve (obs.eraseIdx skip) altM init with
  | none => best
  | some s =>
    match best with
    | none => some s
    | some b => if s.rmsS < b.rmsS then some s else best

/-- Full-set solve, then leave-one-out when it failed or fit badly. -/
def solveRobust (solve : Solver F) (obs : List (Observation F)) (altM : F) (init : Geodetic F) :
    Option (Solution F) :=
  let full := (solve obs altM init).bind fun s => acrossTheLine solve obs altM s
  let trigger := match full with
    | some s => decide (0.5e-6 < s.rmsS)
    | none => true
  if !trigger || decide (obs.length < 5) then full
  else (List.range obs.length).foldl (leaveOneOut solve obs altM init) full

end Mlatd
