/-
  The vocabulary of crate mb-core: ICAO addresses, geodetic and earth-centred positions, and the
  conversions and distances between them.
-/
import Mlatd.Lib.F64

namespace Mlatd

variable {F : Type} [F64 F]

/-- 24-bit ICAO aircraft address. -/
structure Icao where
  val : UInt32
  deriving DecidableEq

/-- A hexadecimal digit of a number below 16, lower case. -/
def hexDigit (n : ℕ) : Char := (Nat.digitChar n)

/-- `{:06x}` of the low 24 bits. -/
def Icao.toHex (i : Icao) : String :=
  let n := i.val.toNat % 2 ^ 24
  String.ofList ([5, 4, 3, 2, 1, 0].map fun k => hexDigit (n / 16 ^ k % 16))

/-- Speed of light in vacuum, m/s. -/
def cMps : F := 299792458.0

/-- WGS84 semi-major axis, m. -/
def wgs84A : F := 6378137.0

/-- WGS84 flattening. -/
def wgs84F : F := 1.0 / 298.257223563

/-- WGS84 first eccentricity squared. -/
def wgs84E2 : F := wgs84F * (2.0 - wgs84F)

/-- Geodetic position on the WGS84 ellipsoid. -/
structure Geodetic (F : Type) where
  latDeg : F
  lonDeg : F
  altM : F

/-- Earth-centred, earth-fixed position, m. -/
structure Ecef (F : Type) where
  x : F
  y : F
  z : F

instance : Inhabited (Geodetic F) := ⟨⟨0.0, 0.0, 0.0⟩⟩
instance : Inhabited (Ecef F) := ⟨⟨0.0, 0.0, 0.0⟩⟩

def Geodetic.toEcef (p : Geodetic F) : Ecef F :=
  let lat := F64.toRadians p.latDeg
  let lon := F64.toRadians p.lonDeg
  let sinLat := F64.sin lat
  let cosLat := F64.cos lat
  let sinLon := F64.sin lon
  let cosLon := F64.cos lon
  let n := wgs84A / F64.sqrt (1.0 - wgs84E2 * sinLat * sinLat)
  { x := (n + p.altM) * cosLat * cosLon
    y := (n + p.altM) * cosLat * sinLon
    z := (n * (1.0 - wgs84E2) + p.altM) * sinLat }

/-- Great-circle distance on the mean sphere, m. -/
def Geodetic.haversineM (p other : Geodetic F) : F :=
  let r : F := 6371000.8
  let lat1 := F64.toRadians p.latDeg
  let lat2 := F64.toRadians other.latDeg
  let dlat := lat2 - lat1
  let dlon := F64.toRadians (other.lonDeg - p.lonDeg)
  let a := F64.sq (F64.sin (dlat / 2.0)) +
    F64.cos lat1 * F64.cos lat2 * F64.sq (F64.sin (dlon / 2.0))
  2.0 * r * F64.asin (F64.sqrt a)

/-- One iteration of Bowring's method. -/
def Ecef.toGeodetic (e : Ecef F) : Geodetic F :=
  let b := wgs84A * (1.0 - wgs84F)
  let ep2 := (wgs84A * wgs84A - b * b) / (b * b)
  let p := F64.sqrt (e.x * e.x + e.y * e.y)
  let theta := F64.atan2 (e.z * wgs84A) (p * b)
  let sinT := F64.sin theta
  let cosT := F64.cos theta
  let lat := F64.atan2 (e.z + ep2 * b * F64.cube sinT) (p - wgs84E2 * wgs84A * F64.cube cosT)
  let lon := F64.atan2 e.y e.x
  let sinLat := F64.sin lat
  let n := wgs84A / F64.sqrt (1.0 - wgs84E2 * sinLat * sinLat)
  let alt := if 1e-12 < F64.abs (F64.cos lat) then p / F64.cos lat - n else F64.abs e.z - b
  { latDeg := F64.toDegrees lat
    lonDeg := F64.toDegrees lon
    altM := alt }

/-- Straight-line distance, m. -/
def dist (a b : Ecef F) : F :=
  F64.sqrt (F64.sq (a.x - b.x) + F64.sq (a.y - b.y) + F64.sq (a.z - b.z))

end Mlatd
