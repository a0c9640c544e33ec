/-
  Compact Position Reporting, airborne format (crate mb-modes, cpr.rs).
-/
import Mlatd.Core

namespace Mlatd

variable {F : Type} [F64 F]

def nz : F := 15.0

/-- 2^17 -/
def two17 : F := 131072.0

/-- Number of longitude zones at a latitude. -/
def nl (latDeg : F) : ℕ :=
  let lat := F64.abs latDeg
  if lat < 10.47047130 then 59
  else if 87.0 < lat then 1
  else
    let a := 1.0 - F64.cos (F64.pi / (2.0 * nz))
    let b := F64.sq (F64.cos (F64.pi * lat / 180.0))
    let x := 1.0 - a / b
    if -1.0 ≤ x ∧ x ≤ 1.0 then
      min (max (F64.asU32 (F64.floor (2.0 * F64.pi / F64.acos x))) 1) 59
    else 1

/-- Positive modulo. -/
def modp (x m : F) : F :=
  let r := F64.rem x m
  if r < 0.0 then r + m else r

/-- A position in 17-bit (lat, lon) CPR values. -/
def encodeAirborne (latDeg lonDeg : F) (odd : Bool) : ℕ × ℕ :=
  let i : F := if odd then 1.0 else 0.0
  let dlat := 360.0 / (4.0 * nz - i)
  let yz := F64.asU64 (F64.floor (two17 * modp latDeg dlat / dlat + 0.5)) % 2 ^ 17
  -- the latitude the decoder will reconstruct
  let rlat := dlat * (F64.ofNat yz / two17 + F64.floor (latDeg / dlat))
  let nlHere := nl rlat
  let nlon := if odd then max (nlHere - 1) 1 else max nlHere 1
  let dlon := 360.0 / F64.ofNat nlon
  let xz := F64.asU64 (F64.floor (two17 * modp lonDeg dlon / dlon + 0.5)) % 2 ^ 17
  (yz, xz)

/-- Global decode of an even/odd pair; the zone of the more recent message wins. `none` when the
    pair straddles a zone boundary or decodes past a pole. -/
def globalDecodeAirborne (even odd : ℕ × ℕ) (recentOdd : Bool) : Option (F × F) :=
  let yzE : F := F64.ofNat even.1
  let xzE : F := F64.ofNat even.2
  let yzO : F := F64.ofNat odd.1
  let xzO : F := F64.ofNat odd.2
  let dlatE : F := 360.0 / 60.0
  let dlatO : F := 360.0 / 59.0
  let j := F64.floor ((59.0 * yzE - 60.0 * yzO) / two17 + 0.5)
  let rlatE := dlatE * (modp j 60.0 + yzE / two17)
  let rlatO := dlatO * (modp j 59.0 + yzO / two17)
  let rlatE := if 270.0 ≤ rlatE then rlatE - 360.0 else rlatE
  let rlatO := if 270.0 ≤ rlatO then rlatO - 360.0 else rlatO
  if 90.0 < F64.abs rlatE ∨ 90.0 < F64.abs rlatO then none
  else if nl rlatE ≠ nl rlatO then none
  else
    let nlV : F := F64.ofNat (nl rlatE)
    let m := F64.floor ((xzE * (nlV - 1.0) - xzO * nlV) / two17 + 0.5)
    let (lat, lon) :=
      if recentOdd then
        let ni := F64.max (nlV - 1.0) 1.0
        (rlatO, 360.0 / ni * (modp m ni + xzO / two17))
      else
        let ni := F64.max nlV 1.0
        (rlatE, 360.0 / ni * (modp m ni + xzE / two17))
    some (lat, if 180.0 ≤ lon then lon - 360.0 else lon)

end Mlatd
