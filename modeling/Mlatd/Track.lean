/-
  Track smoothing (track.rs): an alpha-beta filter per aircraft over accepted fixes.
-/
import Mlatd.Core

namespace Mlatd

variable {F : Type} [F64 F]

structure TrackFilter (F : Type) where
  lat : F
  lon : F
  /-- deg/s -/
  vlat : F
  vlon : F
  lastT : F
  n : ℕ

namespace TrackFilter

def new (first : Geodetic F) (t : F) : TrackFilter F :=
  { lat := first.latDeg, lon := first.lonDeg, vlat := 0.0, vlon := 0.0, lastT := t, n := 1 }

/-- Feed an accepted fix; the smoothed position at its time. -/
def update (f : TrackFilter F) (fix : Geodetic F) (t errEstM : F) :
    TrackFilter F × Geodetic F :=
  let dt := F64.clamp (t - f.lastT) 0.0 30.0
  let plat := f.lat + f.vlat * dt
  let plon := f.lon + f.vlon * dt
  let quality := F64.clamp (40.0 / F64.max errEstM 30.0) 0.15 0.8
  let alpha := if f.n < 5 then F64.max quality 0.5 else quality
  let beta := alpha * alpha / (2.0 - alpha)
  let rlat := fix.latDeg - plat
  let rlon := fix.lonDeg - plon
  let lat := plat + alpha * rlat
  let lon := plon + alpha * rlon
  ({ lat := lat
     lon := lon
     vlat := if 0.05 < dt then f.vlat + beta * rlat / dt else f.vlat
     vlon := if 0.05 < dt then f.vlon + beta * rlon / dt else f.vlon
     lastT := t
     n := f.n + 1 },
    { latDeg := lat, lonDeg := lon, altM := fix.altM })

end TrackFilter

end Mlatd
