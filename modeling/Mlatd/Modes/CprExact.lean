/-
  CPR over exact arithmetic, with any zone function (cpr.rs).

  `encodeAirborneBy` and `globalDecodeAirborneBy` are the code with `nl` a parameter. `encode` and
  `decode` say the same in integers: a 17-bit field is the remainder of the nearest step of the
  zone grid, and the decoder gives the lost zones back (`encodeAirborneBy_eq`,
  `globalDecodeAirborneBy_eq`).
-/
import Mlatd.Modes.Cpr
import Mlatd.Lib.Exact
import Mlatd.Lib.Grid

namespace Mlatd

/-! ## Any zone function -/

section
variable {F : Type} [F64 F]

/-- The 17-bit field of `x` in a zone of size `d`. -/
def cprField (x d : F) : ℕ := F64.asU64 (F64.floor (two17 * modp x d / d + 0.5)) % 2 ^ 17

/-- The size of a latitude zone. -/
def latSize (odd : Bool) : F := 360.0 / (4.0 * nz - if odd then 1.0 else 0.0)

/-- The latitude that the encoder takes the zone count at. -/
def zonedAt (latDeg : F) (odd : Bool) : F :=
  latSize odd * (F64.ofNat (cprField latDeg (latSize odd)) / two17 +
    F64.floor (latDeg / latSize odd))

/-- The size of a longitude zone where the zone count is `n`. -/
def lonSize (odd : Bool) (n : ℕ) : F :=
  360.0 / F64.ofNat (if odd then max (n - 1) 1 else max n 1)

/-- `encodeAirborne` with any zone function. -/
def encodeAirborneBy (nl : F → ℕ) (latDeg lonDeg : F) (odd : Bool) : ℕ × ℕ :=
  (cprField latDeg (latSize odd), cprField lonDeg (lonSize odd (nl (zonedAt latDeg odd))))

/-- The zone index that two fields, weighed by the zone counts, give. -/
def zoneIndex (u v : F) : F := F64.floor ((u - v) / two17 + 0.5)

/-- The place of field `x` in zone `z`, `n` zones to the circle. -/
def cprPlace (n z x : F) : F := 360.0 / n * (modp z n + x / two17)

/-- From `limit` on, the place the other way round the circle. -/
def wrapFrom (limit v : F) : F := if limit ≤ v then v - 360.0 else v

/-- The latitude zone index of two latitude fields. -/
def latIndex (even odd : ℕ) : F := zoneIndex (59.0 * F64.ofNat even) (60.0 * F64.ofNat odd)

/-- The longitude zone index of two longitude fields, where the zone count is `n`. -/
def lonIndex (n even odd : ℕ) : F :=
  zoneIndex (F64.ofNat even * (F64.ofNat n - 1.0)) (F64.ofNat odd * F64.ofNat n)

/-- The latitude of a field. -/
def latAt (odd : Bool) (j : F) (y : ℕ) : F :=
  wrapFrom 270.0 (cprPlace (if odd then 59.0 else 60.0) j (F64.ofNat y))

/-- The longitude zones of a format, where the zone count is `n`. -/
def lonCount (odd : Bool) (n : ℕ) : F :=
  if odd then F64.max (F64.ofNat n - 1.0) 1.0 else F64.max (F64.ofNat n) 1.0

/-- The longitude of a field, where the zone count is `n`. -/
def lonAt (odd : Bool) (n : ℕ) (m : F) (x : ℕ) : F :=
  wrapFrom 180.0 (cprPlace (lonCount odd n) m (F64.ofNat x))

/-- `globalDecodeAirborne` with any zone function. -/
def globalDecodeAirborneBy (nl : F → ℕ) (even odd : ℕ × ℕ) (recentOdd : Bool) : Option (F × F) :=
  let j : F := latIndex even.1 odd.1
  let rlatE := latAt false j even.1
  let rlatO := latAt true j odd.1
  if 90.0 < F64.abs rlatE ∨ 90.0 < F64.abs rlatO then none
  else if nl rlatE ≠ nl rlatO then none
  else
    let m := lonIndex (nl rlatE) even.2 odd.2
    some (if recentOdd then rlatO else rlatE,
      lonAt recentOdd (nl rlatE) m (if recentOdd then odd.2 else even.2))

theorem encodeAirborne_eq (latDeg lonDeg : F) (odd : Bool) :
    encodeAirborne latDeg lonDeg odd = encodeAirborneBy nl latDeg lonDeg odd := rfl

theorem globalDecodeAirborne_eq (even odd : ℕ × ℕ) (recentOdd : Bool) :
    (globalDecodeAirborne even odd recentOdd : Option (F × F)) =
      globalDecodeAirborneBy nl even odd recentOdd := by
  unfold globalDecodeAirborne globalDecodeAirborneBy
  cases recentOdd <;> rfl

end

/-! ## In integers -/

namespace Cpr

/-- Steps of a zone. -/
def steps : ℕ := 2 ^ 17

def latZones (odd : Bool) : ℕ := if odd then 59 else 60

def lonZones (odd : Bool) (n : ℕ) : ℕ := if odd then max (n - 1) 1 else max n 1

section
variable {K : Type} [Field K] [LinearOrder K] [FloorRing K]

/-- The step nearest to `x` degrees, `a` zones to the circle. -/
def step (a : ℕ) (x : K) : ℤ := Grid.nearest steps (a * (x / 360))

/-- Where step `q` lies, degrees. -/
def angle (a : ℕ) (q : ℤ) : K := 360 / a * (q / steps)

/-- The latitude at which the encoder takes the zone count: the field within its zone. -/
def encLat (odd : Bool) (lat : K) : K :=
  360 / latZones odd * ((step (latZones odd) lat % steps : ℤ) / steps +
    ⌊latZones odd * (lat / 360)⌋)

def encode (nl : K → ℕ) (lat lon : K) (odd : Bool) : ℕ × ℕ :=
  ((step (latZones odd) lat % steps).toNat,
    (step (lonZones odd (nl (encLat odd lat))) lon % steps).toNat)

/-- The place of field `x` in zone `z`, degrees. -/
def place (a : ℕ) (z x : ℤ) : K := 360 / a * ((z % a : ℤ) + x / steps)

def wrap (limit v : K) : K := if limit ≤ v then v - 360 else v

def index (u v : ℤ) : ℤ := round (((u - v : ℤ) : K) / steps)

def decode (nl : K → ℕ) (even odd : ℕ × ℕ) (recentOdd : Bool) : Option (K × K) :=
  let j := index (K := K) (59 * even.1) (60 * odd.1)
  let latE : K := wrap 270 (place (latZones false) j even.1)
  let latO : K := wrap 270 (place (latZones true) j odd.1)
  if 90 < |latE| ∨ 90 < |latO| then none
  else if nl latE ≠ nl latO then none
  else
    let n := nl latE
    let m := index (K := K) ((n - 1) * even.2) (n * odd.2)
    some (if recentOdd then latO else latE,
      wrap 180 (place (lonZones recentOdd n) m (if recentOdd then odd.2 else even.2 : ℕ)))

variable [IsStrictOrderedRing K]

theorem latZones_pos (odd : Bool) : 0 < latZones odd := by
  cases odd <;> decide

theorem lonZones_pos (odd : Bool) (n : ℕ) : 0 < lonZones odd n := by
  cases odd <;> simp [lonZones]

theorem size_pos {a : ℕ} (ha : 0 < a) : (0 : K) < 360 / a :=
  div_pos (by norm_num) (by exact_mod_cast ha)

omit [LinearOrder K] [FloorRing K] [IsStrictOrderedRing K] in
theorem div_size (a : ℕ) (x : K) : x / (360 / (a : K)) = a * (x / 360) := by
  rw [div_div_eq_mul_div, mul_comm, mul_div_assoc]

end

end Cpr

/-! ## The code says this -/

section
variable {K : Type} [Field K] [LinearOrder K] [IsStrictOrderedRing K] [FloorRing K] [F64 K]
  [F64.Exact K]

open F64 Cpr

omit [IsStrictOrderedRing K] in
theorem two17_exact : (two17 : K) = steps := by
  unfold two17
  rw [Exact.literal]
  norm_num [steps]

theorem modp_exact (x : K) {m : K} (hm : 0 < m) : modp x m = m * Int.fract (x / m) := by
  have h0 : (@OfScientific.ofScientific K F64.instOfScientific 0 true 1) = (0 : K) := by
    rw [Exact.literal]
    norm_num
  have hx : x = m * (x / m) := (mul_div_cancel₀ x hm.ne').symm
  unfold modp
  simp only [Exact.rem, Exact.hlt, Exact.hadd, h0]
  generalize hu : x / m = u
  rw [hu] at hx
  have hfloor : x - m * ⌊u⌋ = m * Int.fract u := by
    rw [Int.fract, mul_sub, ← hx]
  split_ifs with hpos hneg hneg
  · rw [hfloor] at hneg
    exact absurd hneg (not_lt.2 (mul_nonneg hm.le (Int.fract_nonneg u)))
  · exact hfloor
  · -- the remainder is below zero: it was rounded up to the next zone
    have hceil : ⌈u⌉ = ⌊u⌋ + 1 := by
      rw [Int.ceil_eq_iff]
      have h1 : m * (u - ⌈u⌉) < 0 := by
        rw [mul_sub, ← hx]
        exact hneg
      have h2 : u < ⌈u⌉ := by
        have := neg_of_mul_neg_right h1 hm.le
        linarith
      have h3 : ⌊u⌋ < ⌈u⌉ := Int.floor_lt.2 h2
      have h4 : (⌊u⌋ : K) ≠ u := fun h => by
        rw [← h, Int.ceil_intCast] at h2
        exact lt_irrefl _ (h ▸ h2)
      push_cast
      exact ⟨by linarith [lt_of_le_of_ne (Int.floor_le u) h4], (Int.lt_floor_add_one u).le⟩
    rw [← hfloor, hceil]
    push_cast
    ring
  · -- it is zero
    have h1 : ¬ m * (u - ⌈u⌉) < 0 := by
      rw [mul_sub, ← hx]
      exact hneg
    have h2 : (⌈u⌉ : K) = u := by
      refine le_antisymm ?_ (Int.le_ceil u)
      by_contra h
      exact h1 (mul_neg_of_pos_of_neg hm (by linarith [not_le.1 h]))
    have h3 : (⌊u⌋ : K) = u := by
      rw [← h2, Int.floor_intCast]
    rw [← hfloor, h2, h3]

omit [IsStrictOrderedRing K] in
theorem half_exact :
    (@OfScientific.ofScientific K F64.instOfScientific 5 true 1) = (1 / 2 : K) := by
  rw [Exact.literal]
  norm_num

theorem cprField_exact (x : K) {d : K} (hd : 0 < d) :
    cprField x d = (Grid.nearest steps (x / d) % steps).toNat := by
  have hy : (steps : K) * (d * Int.fract (x / d)) / d + 1 / 2 =
      steps * Int.fract (x / d) + 1 / 2 := by
    field_simp
  unfold cprField F64.asU64 F64.saturate
  rw [two17_exact, modp_exact x hd, half_exact, Exact.hadd, Exact.hdiv, Exact.hmul, Exact.floor, hy,
    Grid.floor_fract, Exact.trunc, ← Grid.nearest_emod]
  obtain ⟨h0, h1⟩ := Grid.floor_fract_mem steps (x / d)
  generalize Grid.nearest steps (x / d) - steps * ⌊x / d⌋ = k at h0 h1
  rw [Int.floor_intCast, Int.ceil_intCast, ite_self]
  unfold steps at h1 ⊢
  omega

omit [IsStrictOrderedRing K] in
theorem circle_exact :
    (@OfScientific.ofScientific K F64.instOfScientific 3600 true 1) = (360 : K) := by
  rw [Exact.literal]
  norm_num

omit [IsStrictOrderedRing K] in
theorem latSize_exact (odd : Bool) : (latSize odd : K) = 360 / latZones odd := by
  unfold latSize nz
  simp only [Exact.hdiv, Exact.hsub, Exact.hmul, Exact.literal]
  cases odd <;> norm_num [latZones]

omit [IsStrictOrderedRing K] in
theorem lonSize_exact (odd : Bool) (n : ℕ) : (lonSize odd n : K) = 360 / lonZones odd n := by
  unfold lonSize
  rw [Exact.hdiv, Exact.ofNat, circle_exact]
  rfl

/-- The field of `x` in one of `a` zones. -/
theorem cprField_size {a : ℕ} (ha : 0 < a) (x : K) :
    cprField x (360 / (a : K)) = (step a x % steps).toNat := by
  rw [cprField_exact x (size_pos ha), div_size]
  rfl

theorem zonedAt_exact (lat : K) (odd : Bool) : zonedAt lat odd = encLat odd lat := by
  have h0 : 0 ≤ step (latZones odd) lat % steps := Int.emod_nonneg _ (by decide)
  unfold zonedAt encLat
  rw [latSize_exact, cprField_size (latZones_pos odd), Exact.hmul, Exact.hadd, Exact.hdiv,
    Exact.hdiv, Exact.floor, Exact.ofNat, two17_exact, div_size,
    ← Int.cast_natCast (step (latZones odd) lat % steps).toNat, Int.toNat_of_nonneg h0]

theorem encodeAirborneBy_eq (nl : K → ℕ) (lat lon : K) (odd : Bool) :
    encodeAirborneBy nl lat lon odd = encode nl lat lon odd := by
  unfold encodeAirborneBy encode
  rw [zonedAt_exact, latSize_exact, lonSize_exact, cprField_size (latZones_pos odd),
    cprField_size (lonZones_pos odd _)]

/-! ## The decoder -/

theorem zoneIndex_exact {u v : K} {i j : ℤ} (hu : u = i) (hv : v = j) :
    zoneIndex u v = (index (K := K) i j : ℤ) := by
  unfold zoneIndex index
  rw [round_eq]
  rw [Exact.floor, Exact.hadd, Exact.hdiv, Exact.hsub, half_exact, two17_exact, hu, hv]
  push_cast
  rfl

theorem cprPlace_exact {n : K} {a : ℕ} (ha : 0 < a) (hn : n = a) (z : ℤ) (x : ℕ) :
    cprPlace n (z : K) (F64.ofNat x) = place a z x := by
  have ha' : (0 : K) < a := by exact_mod_cast ha
  have hm : (a : K) * Int.fract ((z : K) / a) = (z % a : ℤ) := by
    rw [Int.fract, mul_sub, mul_div_cancel₀ _ ha'.ne', Int.emod_def]
    rw [Int.floor_div_natCast, Int.floor_intCast]
    push_cast
    ring
  unfold cprPlace place
  rw [hn, modp_exact _ ha', hm, Exact.hmul, Exact.hadd, Exact.hdiv, Exact.hdiv, Exact.ofNat,
    two17_exact, circle_exact, Int.cast_natCast]

omit [IsStrictOrderedRing K] in
theorem wrapFrom_exact {l l' : K} (hl : l = l') (v : K) : wrapFrom l v = wrap l' v := by
  unfold wrapFrom wrap
  rw [hl, Exact.hsub, circle_exact]
  exact if_congr (Exact.hle _ _) rfl rfl

omit [IsStrictOrderedRing K] in
/-- A literal with one zero after the point. -/
theorem literal_exact {m : ℕ} (a : ℕ) (h : m = a * 10) :
    (@OfScientific.ofScientific K F64.instOfScientific m true 1) = (a : K) := by
  rw [Exact.literal, NNRatCast.ofScientific_eq_ite, h]
  norm_num

theorem latIndex_exact (even odd : ℕ) :
    (latIndex even odd : K) = (index (K := K) (59 * even) (60 * odd) : ℤ) := by
  refine zoneIndex_exact ?_ ?_
  · rw [Exact.hmul, literal_exact 59 rfl, Exact.ofNat]
    push_cast
    rfl
  · rw [Exact.hmul, literal_exact 60 rfl, Exact.ofNat]
    push_cast
    rfl

theorem lonIndex_exact (n even odd : ℕ) :
    (lonIndex n even odd : K) = (index (K := K) ((n - 1) * even) (n * odd) : ℤ) := by
  refine zoneIndex_exact ?_ ?_
  · rw [Exact.hmul, Exact.hsub, literal_exact 1 rfl, Exact.ofNat, Exact.ofNat]
    push_cast
    ring
  · rw [Exact.hmul, Exact.ofNat, Exact.ofNat]
    push_cast
    ring

theorem latAt_exact (odd : Bool) (j : ℤ) (y : ℕ) :
    latAt odd (j : K) y = wrap 270 (place (latZones odd) j y) := by
  unfold latAt
  rw [wrapFrom_exact (literal_exact 270 rfl)]
  cases odd
  · exact congrArg _ (cprPlace_exact (by decide) (literal_exact 60 rfl) j y)
  · exact congrArg _ (cprPlace_exact (by decide) (literal_exact 59 rfl) j y)

theorem lonCount_exact (odd : Bool) (n : ℕ) : (lonCount odd n : K) = lonZones odd n := by
  unfold lonCount
  rw [Exact.max, Exact.max, Exact.hsub, literal_exact 1 rfl, Exact.ofNat]
  cases odd
  · simp [lonZones]
  · rcases n with - | n <;> simp [lonZones]

theorem lonAt_exact (odd : Bool) (n : ℕ) (m : ℤ) (x : ℕ) :
    lonAt odd n (m : K) x = wrap 180 (place (lonZones odd n) m x) := by
  unfold lonAt
  rw [wrapFrom_exact (literal_exact 180 rfl), cprPlace_exact (lonZones_pos odd n)
    (lonCount_exact odd n), Nat.cast_ofNat]

theorem globalDecodeAirborneBy_eq (nl : K → ℕ) (even odd : ℕ × ℕ) (recentOdd : Bool) :
    globalDecodeAirborneBy nl even odd recentOdd = decode nl even odd recentOdd := by
  unfold globalDecodeAirborneBy decode
  simp only [latIndex_exact, lonIndex_exact, latAt_exact, lonAt_exact, Exact.abs, Exact.hlt,
    literal_exact 90 rfl, Nat.cast_ofNat]

end

end Mlatd
