/-
  CPR round trips over exact arithmetic (cpr.rs).

  A decoded position is a point of the step grid of the more recent frame, so encoding it gives
  this frame's fields back, whatever the zone function (`encode_decode`). The other way round, the
  decoder finds the grid point nearest to the encoded latitude. The longitude comes back where
  the encoder has taken its zone count at that point; where the rounding ran into the next
  latitude zone it has not (`round_trip_iff`).
-/
import Mlatd.Modes.CprExact

namespace Mlatd

open Cpr

namespace Cpr

section
variable {K : Type} [Field K] [LinearOrder K] [IsStrictOrderedRing K] [FloorRing K]

theorem steps_pos : 0 < steps := by decide

omit [LinearOrder K] [IsStrictOrderedRing K] [FloorRing K] in
theorem steps_real : (steps : K) = 2 ^ 17 := by norm_num [steps]

theorem steps_pos' : (0 : K) < steps := by exact_mod_cast steps_pos

/-! ## The grid -/

omit [IsStrictOrderedRing K] in
theorem mul_angle {a : ℕ} (ha : 0 < a) (q : ℤ) :
    (a : K) * (angle a q / 360) = (q : K) / steps := by
  have h : (a : K) ≠ 0 := by exact_mod_cast ha.ne'
  unfold angle
  field_simp

/-- A grid point is the step nearest to it. -/
theorem step_angle {a : ℕ} (ha : 0 < a) (q : ℤ) : step a (angle a q : K) = q := by
  unfold step
  rw [mul_angle ha, Grid.nearest_div steps_pos]

/-- At a grid point the encoder takes the zone count there. -/
theorem encLat_angle (odd : Bool) (q : ℤ) :
    encLat odd (angle (latZones odd) q : K) = angle (latZones odd) q := by
  have h : (steps : K) ≠ 0 := steps_pos'.ne'
  unfold encLat
  rw [step_angle (latZones_pos odd), mul_angle (latZones_pos odd), Int.floor_div_natCast,
    Int.floor_intCast]
  unfold angle
  have hq : (q : K) = (q % steps : ℤ) + steps * (q / steps : ℤ) := by
    exact_mod_cast (Int.emod_add_mul_ediv q steps).symm
  congr 1
  rw [eq_div_iff h, add_mul, div_mul_cancel₀ _ h, hq]
  ring

/-- A place is a grid point whose field is the one placed. -/
theorem place_eq (a : ℕ) (z x : ℤ) :
    (place a z x : K) = angle a (x + steps * (z % a)) := by
  have h : (steps : K) ≠ 0 := steps_pos'.ne'
  unfold place angle
  push_cast
  rw [add_div, mul_div_cancel_left₀ _ h, add_comm]

theorem place_mem {a : ℕ} (ha : 0 < a) (z : ℤ) {x : ℤ} (h0 : 0 ≤ x) (h1 : x < steps) :
    (0 : K) ≤ place a z x ∧ (place a z x : K) < 360 := by
  have ha' : (0 : K) < a := by exact_mod_cast ha
  have hz0 : (0 : K) ≤ (z % a : ℤ) := by
    exact_mod_cast Int.emod_nonneg z (by omega)
  have hz1 : ((z % a : ℤ) : K) + 1 ≤ a := by
    exact_mod_cast Int.emod_lt_of_pos z (by omega : (0 : ℤ) < a)
  have hx0 : (0 : K) ≤ (x : K) / steps := div_nonneg (by exact_mod_cast h0) steps_pos'.le
  have hx1 : (x : K) / steps < 1 := (div_lt_one steps_pos').2 (by exact_mod_cast h1)
  unfold place
  constructor
  · exact mul_nonneg (size_pos ha).le (add_nonneg hz0 hx0)
  · rw [div_mul_eq_mul_div, div_lt_iff₀ ha']
    exact mul_lt_mul_of_pos_left (by linarith) (by norm_num)

theorem angle_sub {a : ℕ} (ha : 0 < a) (q k : ℤ) :
    (angle a (q - steps * a * k) : K) = angle a q - 360 * k := by
  have h : (steps : K) ≠ 0 := steps_pos'.ne'
  have ha' : (a : K) ≠ 0 := by exact_mod_cast ha.ne'
  unfold angle
  push_cast
  field_simp

/-- The wrapped place is a grid point with the same field. -/
theorem wrap_place {a : ℕ} (ha : 0 < a) (limit : K) (z x : ℤ) :
    ∃ q : ℤ, wrap limit (place a z x) = angle a q ∧ q % steps = x % steps := by
  unfold wrap
  rw [place_eq]
  split
  · refine ⟨x + steps * (z % a) - steps * a * 1, ?_, ?_⟩
    · rw [angle_sub ha, Int.cast_one, mul_one]
    · rw [show x + steps * (z % a) - steps * a * 1 = x + steps * (z % a - a) by ring,
        Int.add_mul_emod_self_left]
  · exact ⟨_, rfl, Int.add_mul_emod_self_left _ _ _⟩

/-! ## Encoding what was decoded -/

/-- **Encoding a decoded position gives the more recent frame back.** -/
theorem encode_decode {nl : K → ℕ} {even odd : ℕ × ℕ} {recentOdd : Bool} {lat lon : K}
    (he : even.1 < steps ∧ even.2 < steps) (ho : odd.1 < steps ∧ odd.2 < steps)
    (h : decode nl even odd recentOdd = some (lat, lon)) :
    (-90 ≤ lat ∧ lat ≤ 90) ∧ (-180 ≤ lon ∧ lon < 180) ∧
      encode nl lat lon recentOdd = if recentOdd then odd else even := by
  unfold decode at h
  simp only at h
  generalize index (K := K) (59 * even.1) (60 * odd.1) = j at h
  by_cases hpole : 90 < |(wrap 270 (place (latZones false) j even.1) : K)| ∨
      90 < |(wrap 270 (place (latZones true) j odd.1) : K)|
  · rw [if_pos hpole] at h
    cases h
  rw [if_neg hpole] at h
  rw [not_or, not_lt, not_lt] at hpole
  by_cases hnl : nl (wrap 270 (place (latZones false) j even.1)) ≠
      nl (wrap 270 (place (latZones true) j odd.1))
  · rw [if_pos hnl] at h
    cases h
  rw [if_neg hnl] at h
  rw [not_not] at hnl
  generalize hn : nl (wrap 270 (place (latZones false) j even.1)) = n at h hnl
  generalize index (K := K) ((n - 1) * even.2) (n * odd.2) = m at h
  obtain ⟨hlat, hlon⟩ := Prod.mk.inj (Option.some.inj h)
  clear h
  have hx : (if recentOdd then odd.2 else even.2) < steps := by
    cases recentOdd
    · exact he.2
    · exact ho.2
  generalize hxe : (if recentOdd then odd.2 else even.2) = x at hlon hx
  -- the latitude is a grid point of the recent frame, with its zone count
  have hpoint : ∃ q : ℤ, lat = angle (latZones recentOdd) q ∧
      q % steps = (if recentOdd then odd.1 else even.1 : ℕ) ∧ nl lat = n ∧ |lat| ≤ 90 := by
    cases recentOdd with
    | false =>
      obtain ⟨q, hq, hmod⟩ := wrap_place (K := K) (latZones_pos false) 270 j even.1
      refine ⟨q, hlat ▸ hq, ?_, hlat ▸ hn, hlat ▸ hpole.1⟩
      rw [hmod]
      exact Int.emod_eq_of_lt (by omega) (by exact_mod_cast he.1)
    | true =>
      obtain ⟨q, hq, hmod⟩ := wrap_place (K := K) (latZones_pos true) 270 j odd.1
      refine ⟨q, hlat ▸ hq, ?_, hlat ▸ hnl.symm, hlat ▸ hpole.2⟩
      rw [hmod]
      exact Int.emod_eq_of_lt (by omega) (by exact_mod_cast ho.1)
  obtain ⟨q, hq, hqmod, hnlat, habs⟩ := hpoint
  obtain ⟨p, hp, hpmod⟩ := wrap_place (K := K) (lonZones_pos recentOdd n) 180 m x
  refine ⟨abs_le.1 habs, ?_, ?_⟩
  · obtain ⟨h0, h1⟩ := place_mem (K := K) (lonZones_pos recentOdd n) m (Int.natCast_nonneg x)
      (by exact_mod_cast hx)
    rw [← hlon]
    unfold wrap
    split_ifs with h180
    · constructor <;> linarith
    · rw [not_le] at h180
      constructor <;> linarith
  · have henc : encLat recentOdd lat = lat := by
      rw [hq, encLat_angle]
    rw [hlon] at hp
    rw [Int.emod_eq_of_lt (Int.natCast_nonneg x) (by exact_mod_cast hx)] at hpmod
    unfold encode
    rw [henc, hnlat, hp, step_angle (lonZones_pos recentOdd n), hpmod, hq,
      step_angle (latZones_pos recentOdd), hqmod, ← hxe]
    cases recentOdd <;> rfl

/-! ## Decoding what was encoded -/

/-- The grid point nearest to a latitude. -/
def gridLat (odd : Bool) (lat : K) : K := angle (latZones odd) (step (latZones odd) lat)

theorem abs_angle_step_sub {a : ℕ} (ha : 0 < a) (x : K) :
    |angle a (step a x) - x| ≤ 360 / a / 2 ^ 18 := by
  have ha' : (a : K) ≠ 0 := by exact_mod_cast ha.ne'
  have h : angle a (step a x) - x =
      360 / a / steps * (step a x - steps * (a * (x / 360))) := by
    have := (steps_pos' (K := K)).ne'
    unfold angle
    field_simp
  have hsize : (0 : K) < 360 / a / steps := div_pos (size_pos ha) steps_pos'
  rw [h, abs_mul, abs_of_pos hsize]
  refine (mul_le_mul_of_nonneg_left (Grid.abs_nearest_sub steps _) hsize.le).trans (le_of_eq ?_)
  rw [steps_real]
  field_simp

/-- The steps of a latitude end at the poles. -/
theorem step_lat_mem (odd : Bool) {lat : K} (h : |lat| ≤ 90) :
    |(gridLat odd lat : K)| ≤ 90 := by
  obtain ⟨h0, h1⟩ := abs_le.1 h
  have ha : (0 : K) < latZones odd := by exact_mod_cast latZones_pos odd
  -- a quarter of the circle is a whole number of steps
  have hle : ∀ q : ℤ, (q : K) ≤ (latZones odd : K) * 2 ^ 15 →
      (angle (latZones odd) q : K) ≤ 90 := by
    intro q hq
    unfold angle
    rw [steps_real, div_mul_div_comm, div_le_iff₀ (by positivity)]
    linarith
  have hge : ∀ q : ℤ, -((latZones odd : K) * 2 ^ 15) ≤ q → -90 ≤ (angle (latZones odd) q : K) := by
    intro q hq
    unfold angle
    rw [steps_real, div_mul_div_comm, le_div_iff₀ (by positivity)]
    linarith
  refine abs_le.2 ⟨hge _ ?_, hle _ ?_⟩
  · have h2 : (-(latZones odd * 2 ^ 15 : ℤ) : ℤ) ≤ step (latZones odd) lat := by
      refine Grid.le_nearest ?_
      rw [steps_real]
      push_cast
      have := mul_le_mul_of_nonneg_left h0 ha.le
      linarith
    exact_mod_cast h2
  · have h2 : step (latZones odd) lat ≤ (latZones odd * 2 ^ 15 : ℤ) := by
      refine Grid.nearest_le ?_
      rw [steps_real]
      push_cast
      have := mul_le_mul_of_nonneg_left h1 ha.le
      linarith
    exact_mod_cast h2

/-- A place among the zones is the step's own angle, as many turns round as it takes. -/
theorem place_ediv {a : ℕ} (ha : 0 < a) (q : ℤ) :
    (place a (q / steps) (q % steps) : K) = angle a q - 360 * (q / steps / a : ℤ) := by
  rw [place_eq, ← angle_sub ha]
  congr 1
  have h1 := Int.emod_add_mul_ediv q steps
  have h2 := Int.emod_add_mul_ediv (q / steps) a
  linear_combination h1 + (steps : ℤ) * h2

/-- A latitude comes back from its own zone. -/
theorem wrap_place_lat {a : ℕ} (ha : 0 < a) {q : ℤ} (h : |(angle a q : K)| ≤ 90) :
    wrap 270 (place a (q / steps) (q % steps)) = (angle a q : K) := by
  obtain ⟨h0, h1⟩ := place_mem (K := K) ha (q / steps)
    (Int.emod_nonneg q (by decide : (steps : ℤ) ≠ 0)) (Int.emod_lt_of_pos q (by decide))
  rw [place_ediv ha] at h0 h1 ⊢
  obtain ⟨h2, h3⟩ := abs_le.1 h
  generalize (q / steps / a : ℤ) = k at h0 h1 ⊢
  have hk0 : k ≤ 0 := by
    by_contra hk
    have : (1 : K) ≤ k := by exact_mod_cast not_le.1 hk
    linarith
  have hk1 : -1 ≤ k := by
    by_contra hk
    have : (k : K) ≤ -2 := by exact_mod_cast (by omega : k ≤ -2)
    linarith
  unfold wrap
  obtain rfl | rfl : k = 0 ∨ k = -1 := by omega
  · push_cast
    rw [if_neg (by linarith)]
    ring
  · push_cast
    rw [if_pos (by linarith)]
    ring

omit [LinearOrder K] [IsStrictOrderedRing K] [FloorRing K] in
theorem place_congr (a : ℕ) {z z' : ℤ} (h : z % a = z' % a) (x : ℤ) :
    (place a z x : K) = place a z' x := by
  unfold place
  rw [h]

/-- The zones that two fields of one position have lost. -/
theorem index_step (a b : ℕ) (hab : (a + b : ℤ) < steps) (t : K) :
    index (K := K) (b * (step a (360 * t) % steps)) (a * (step b (360 * t) % steps)) =
      a * (step b (360 * t) / steps) - b * (step a (360 * t) / steps) := by
  have h := Grid.abs_cross_le steps a b t
  unfold index step
  rw [round_eq]
  rw [mul_div_cancel_left₀ t (by norm_num : (360 : K) ≠ 0)]
  exact Grid.zone_index steps_pos (h.trans_lt hab)

/-- The zones of an encoded latitude are found from both frames. -/
theorem latIndex_step (odd : Bool) (lat : K) :
    index (K := K) (59 * (step (latZones false) lat % steps))
        (60 * (step (latZones true) lat % steps)) % latZones odd =
      step (latZones odd) lat / steps % latZones odd := by
  have h := index_step 60 59 (by decide) (lat / 360)
  rw [mul_div_cancel₀ lat (by norm_num : (360 : K) ≠ 0)] at h
  have h' : index (K := K) (59 * (step (latZones false) lat % steps))
      (60 * (step (latZones true) lat % steps)) =
      60 * (step (latZones true) lat / steps) - 59 * (step (latZones false) lat / steps) := h
  rw [h']
  cases odd
  · exact Grid.zone_emod_succ 59 _ _
  · exact Grid.zone_emod 59 _ _

/-- What is decoded of an encoded position: nothing, or the grid point nearest to its latitude. -/
theorem decode_encode {nl : K → ℕ} {lat : K} (h : |lat| ≤ 90) (lon : K) (recentOdd : Bool) :
    decode nl (encode nl lat lon false) (encode nl lat lon true) recentOdd =
      if nl (gridLat false lat) ≠ nl (gridLat true lat) then none
      else
        some (gridLat recentOdd lat, wrap 180 (place (lonZones recentOdd (nl (gridLat false lat)))
          (index (K := K)
            ((nl (gridLat false lat) - 1) *
              (step (lonZones false (nl (encLat false lat))) lon % steps))
            (nl (gridLat false lat) * (step (lonZones true (nl (encLat true lat))) lon % steps)))
          (step (lonZones recentOdd (nl (encLat recentOdd lat))) lon % steps))) := by
  have hnat : ∀ q : ℤ, (((q % steps).toNat : ℕ) : ℤ) = q % steps := fun q =>
    Int.toNat_of_nonneg (Int.emod_nonneg q (by decide))
  have hlat : ∀ odd : Bool, (wrap 270 (place (latZones odd)
      (index (K := K) (59 * (step (latZones false) lat % steps))
        (60 * (step (latZones true) lat % steps)))
      (step (latZones odd) lat % steps)) : K) = gridLat odd lat := by
    intro odd
    rw [place_congr _ (latIndex_step odd lat)]
    exact wrap_place_lat (latZones_pos odd) (step_lat_mem odd h)
  have hpole : ¬ (90 < |(gridLat false lat : K)| ∨ 90 < |(gridLat true lat : K)|) := by
    rw [not_or, not_lt, not_lt]
    exact ⟨step_lat_mem false h, step_lat_mem true h⟩
  have he := hlat false
  have ho := hlat true
  unfold decode encode
  simp only [hnat]
  rw [he, ho, if_neg hpole]
  cases recentOdd <;> simp only [hnat, if_true, Bool.false_eq_true, if_false]

/-- The zones of an encoded longitude are found from both frames, encoded with one zone count. -/
theorem lonIndex_step {n : ℕ} (hn : n ≤ 59) (odd : Bool) (lon : K) :
    index (K := K) ((n - 1) * (step (lonZones false n) lon % steps))
        (n * (step (lonZones true n) lon % steps)) % lonZones odd n =
      step (lonZones odd n) lon / steps % lonZones odd n := by
  by_cases h1 : n ≤ 1
  · have h : lonZones odd n = 1 := by
      cases odd <;> simp [lonZones, h1]
    rw [h, Nat.cast_one, Int.emod_one, Int.emod_one]
  · obtain ⟨b, rfl⟩ : ∃ b, n = b + 1 := ⟨n - 1, by omega⟩
    have hfalse : lonZones false (b + 1) = b + 1 := by simp [lonZones]
    have htrue : lonZones true (b + 1) = b := by
      simp only [lonZones, if_true, Nat.add_sub_cancel]
      omega
    have hab : (((b + 1 : ℕ) : ℤ) + b) < steps := by
      unfold steps
      omega
    have h := index_step (b + 1) b hab (lon / 360)
    rw [mul_div_cancel₀ lon (by norm_num : (360 : K) ≠ 0)] at h
    have hb : ((b + 1 : ℕ) : ℤ) - 1 = b := by push_cast; ring
    rw [hfalse, htrue, hb, h]
    cases odd
    · rw [hfalse]
      push_cast
      exact Grid.zone_emod_succ b _ _
    · rw [htrue]
      push_cast
      exact Grid.zone_emod b _ _

/-- A decoded position is within half a step of the encoded one. -/
structure Near (nl : K → ℕ) (odd : Bool) (lat lon lat' lon' : K) : Prop where
  lat : |lat' - lat| ≤ 360 / latZones odd / 2 ^ 18
  lon : ∃ k : ℤ, |lon' - lon - 360 * k| ≤ 360 / lonZones odd (nl lat') / 2 ^ 18

/-- The encoder takes as many longitude zones as there are at the nearest grid latitude. -/
def SameZones (nl : K → ℕ) (odd : Bool) (lat : K) : Prop :=
  lonZones odd (nl (encLat odd lat)) = lonZones odd (nl (gridLat odd lat))

theorem near_of_sameZones {nl : K → ℕ} (hnl : ∀ x, nl x ≤ 59) {lat : K} (h : |lat| ≤ 90)
    (hs : ∀ odd, SameZones nl odd lat) (lon : K) (recentOdd : Bool) {lat' lon' : K}
    (hd : decode nl (encode nl lat lon false) (encode nl lat lon true) recentOdd =
      some (lat', lon')) : Near nl recentOdd lat lon lat' lon' := by
  rw [decode_encode h] at hd
  by_cases hne : nl (gridLat false lat) ≠ nl (gridLat true lat)
  · rw [if_pos hne] at hd
    cases hd
  · rw [if_neg hne] at hd
    rw [not_not] at hne
    obtain ⟨rfl, hlon⟩ := Prod.mk.inj (Option.some.inj hd)
    have hn : ∀ odd, nl (gridLat odd lat) = nl (gridLat false lat) := by
      intro odd
      cases odd
      · rfl
      · exact hne.symm
    have hz : ∀ odd, lonZones odd (nl (encLat odd lat)) =
        lonZones odd (nl (gridLat false lat)) := fun odd => (hs odd).trans (by rw [hn])
    refine ⟨abs_angle_step_sub (latZones_pos recentOdd) lat, ?_⟩
    rw [hn]
    rw [hz, hz, hz] at hlon
    have hle := hnl (gridLat false lat)
    generalize nl (gridLat false lat) = n at hlon hle ⊢
    rw [place_congr _ (lonIndex_step hle recentOdd lon), place_ediv (lonZones_pos recentOdd n)]
      at hlon
    have hclose := abs_angle_step_sub (lonZones_pos recentOdd n) lon
    generalize step (lonZones recentOdd n) lon / steps / lonZones recentOdd n = k at hlon
    unfold wrap at hlon
    split_ifs at hlon with h180
    · refine ⟨-k - 1, ?_⟩
      rw [← hlon]
      convert hclose using 2
      push_cast
      ring
    · refine ⟨-k, ?_⟩
      rw [← hlon]
      convert hclose using 2
      push_cast
      ring

/-- A half is not within a quarter of an integer. -/
theorem quarter_lt_abs_half_sub (k : ℤ) : 1 / 4 < |(1 / 2 : K) - k| := by
  rcases le_or_gt k 0 with hk | hk
  · have : (k : K) ≤ 0 := by exact_mod_cast hk
    rw [abs_of_pos (by linarith)]
    linarith
  · have : (1 : K) ≤ k := by exact_mod_cast hk
    rw [abs_of_neg (by linarith)]
    linarith

/-- Half a unit, up or down, near an integer puts a half near one. -/
theorem exists_near_half {x e : K} (hx : 0 < |x|) {m : ℤ} (h : |x / |x| / 2 + m| ≤ e) :
    ∃ w : ℤ, |(1 / 2 : K) - w| ≤ e := by
  rcases le_total 0 x with hpos | hneg
  · rw [abs_of_nonneg hpos] at h hx
    rw [div_self hx.ne'] at h
    refine ⟨-m, ?_⟩
    rw [Int.cast_neg, sub_neg_eq_add]
    exact h
  · rw [abs_of_nonpos hneg] at h hx
    rw [div_neg, div_self (neg_ne_zero.1 hx.ne')] at h
    refine ⟨m, ?_⟩
    rw [← abs_neg]
    convert h using 2
    ring

/-- A step counted in zones is at the longitude counted in zones. -/
theorem abs_step_zones_sub (a : ℕ) (lon : K) :
    |(step a lon : K) / steps - a * (lon / 360)| ≤ 1 / 2 ^ 18 := by
  have hnear := Grid.abs_nearest_sub steps (a * (lon / 360))
  have hdiff : (step a lon : K) / steps - a * (lon / 360) =
      (step a lon - steps * (a * (lon / 360))) / steps := by
    have hs := (steps_pos' (K := K)).ne'
    field_simp
  rw [steps_real] at hnear
  rw [hdiff, abs_div, abs_of_pos (steps_pos' (K := K)), div_le_iff₀ steps_pos', steps_real]
  refine hnear.trans (le_of_eq ?_)
  norm_num

/-- A place near a longitude, counted in zones. -/
theorem abs_zones_sub {a : ℕ} (ha : 0 < a) {q k : ℤ} {lon e : K}
    (h : |angle a q - lon - 360 * k| ≤ 360 / a * e) :
    |(q : K) / steps - a * (lon / 360) - a * k| ≤ e := by
  have haK : (0 : K) < a := by exact_mod_cast ha
  have hzones : angle a q - lon - 360 * k =
      360 / a * ((q : K) / steps - a * (lon / 360) - a * k) := by
    have hs := (steps_pos' (K := K)).ne'
    unfold angle
    field_simp
  rw [hzones, abs_mul, abs_of_pos (size_pos ha)] at h
  exact le_of_mul_le_mul_left h (size_pos ha)

/-- Two places of one step are whole zones apart. -/
theorem zones_of_emod_eq {q s : ℤ} (h : q % steps = s % steps) :
    (q : K) / steps = (s : K) / steps + (q / steps - s / steps : ℤ) := by
  have hs := (steps_pos' (K := K)).ne'
  have hq : q = s + steps * (q / steps - s / steps) := by
    have h1 := Int.emod_add_mul_ediv q steps
    have h2 := Int.emod_add_mul_ediv s steps
    linear_combination -h1 + h2 + h
  have hK : (q : K) = s + steps * (q / steps - s / steps : ℤ) := by
    exact_mod_cast hq
  rw [hK, add_div, mul_div_cancel_left₀ _ hs]

/-- Where the zone counts differ, the longitude half a zone out of step does not come back. -/
theorem exists_far {nl : K → ℕ} {lat : K} (h : |lat| ≤ 90)
    (hne : nl (gridLat false lat) = nl (gridLat true lat)) {odd : Bool}
    (hz : ¬ SameZones nl odd lat) :
    ∃ lon, -180 ≤ lon ∧ lon < 180 ∧ ∃ lat' lon',
      decode nl (encode nl lat lon false) (encode nl lat lon true) odd = some (lat', lon') ∧
        ¬ Near nl odd lat lon lat' lon' := by
  unfold SameZones at hz
  set a := lonZones odd (nl (gridLat odd lat)) with ha
  set a' := lonZones odd (nl (encLat odd lat)) with ha'
  have hapos : 0 < a := lonZones_pos odd _
  have hn : nl (gridLat odd lat) = nl (gridLat false lat) := by
    cases odd
    · rfl
    · exact hne.symm
  -- the difference of the zone counts, and the longitude that turns it into half a zone
  have hd : ((a : ℤ) - a' : ℤ) ≠ 0 := by omega
  have hdK : (1 : K) ≤ |(a : K) - a'| := by
    exact_mod_cast Int.one_le_abs hd
  have hdpos : (0 : K) < |(a : K) - a'| := one_pos.trans_le hdK
  obtain ⟨lon, hlon⟩ : ∃ lon : K, lon = -180 / |(a : K) - a'| := ⟨_, rfl⟩
  have hdec := (@decode_encode K _ _ _ _ nl lat h lon odd).trans (if_neg (not_not_intro hne))
  rw [← hn, ← ha, ← ha'] at hdec
  obtain ⟨q, hq, hmod⟩ := wrap_place (K := K) hapos 180 (index (K := K)
    ((nl (gridLat odd lat) - 1) * (step (lonZones false (nl (encLat false lat))) lon % steps))
    (nl (gridLat odd lat) * (step (lonZones true (nl (encLat true lat))) lon % steps)))
    (step a' lon % steps)
  rw [hq] at hdec
  refine ⟨lon, ?_, ?_, _, _, hdec, ?_⟩
  · rw [hlon, le_div_iff₀ hdpos]
    linarith
  · rw [hlon]
    exact (div_neg_of_neg_of_pos (by norm_num) hdpos).trans (by norm_num)
  · rintro ⟨-, k, hk⟩
    rw [← ha, div_eq_mul_one_div (360 / (a : K))] at hk
    rw [Int.emod_emod_of_dvd _ (dvd_refl _)] at hmod
    -- in zones: where the point lies, where the longitude lies, and the whole zones between
    have hpoint := abs_zones_sub hapos hk
    have hstep := abs_step_zones_sub a' lon
    have hwhole := zones_of_emod_eq (K := K) hmod
    generalize (q / steps - step a' lon / steps : ℤ) = v at hwhole
    have hhalf : (a' - a : K) * (lon / 360) = (a - a') / |(a : K) - a'| / 2 := by
      rw [hlon]
      field_simp
      ring
    have hnear : |(a - a' : K) / |(a : K) - a'| / 2 + (v - a * k : ℤ)| ≤ 2 / 2 ^ 18 := by
      rw [hwhole] at hpoint
      have hdiff : (a' - a : K) * (lon / 360) + (v - a * k : ℤ) =
          ((step a' lon : K) / steps + v - a * (lon / 360) - a * k) -
            ((step a' lon : K) / steps - a' * (lon / 360)) := by
        push_cast
        ring
      rw [← hhalf, hdiff]
      refine (abs_sub _ _).trans ((add_le_add hpoint hstep).trans (le_of_eq ?_))
      ring
    obtain ⟨w, hw⟩ := exists_near_half hdpos hnear
    have hquarter := quarter_lt_abs_half_sub (K := K) w
    have hlt : (2 / 2 ^ 18 : K) < 1 / 4 := by norm_num
    linarith

end

end Cpr

/-! ## The code's functions -/

/-- **Encoding a decoded position gives the more recent frame back**, over exact rational
    arithmetic and with any zone function. -/
theorem encode_decoded (nl : ℚ → ℕ) (even odd : ℕ × ℕ) (recentOdd : Bool) (lat lon : ℚ)
    (he : even.1 < 2 ^ 17 ∧ even.2 < 2 ^ 17) (ho : odd.1 < 2 ^ 17 ∧ odd.2 < 2 ^ 17)
    (h : globalDecodeAirborneBy nl even odd recentOdd = some (lat, lon)) :
    (-90 ≤ lat ∧ lat ≤ 90) ∧ (-180 ≤ lon ∧ lon < 180) ∧
      encodeAirborneBy nl lat lon recentOdd = if recentOdd then odd else even := by
  rw [globalDecodeAirborneBy_eq] at h
  rw [encodeAirborneBy_eq]
  exact encode_decode he ho h

/-- The even and odd frame of 40621d, with 36 zones at their latitude. -/
theorem encode_decoded_literature :
    (-90 ≤ (428091 / 8192 : ℚ) ∧ (428091 / 8192 : ℚ) ≤ 90) ∧
      (-180 ≤ (64215 / 16384 : ℚ) ∧ (64215 / 16384 : ℚ) < 180) ∧
      encodeAirborneBy (fun _ => 36) (428091 / 8192 : ℚ) (64215 / 16384) false = (93000, 51372) :=
  encode_decoded (fun _ => 36) (93000, 51372) (74158, 50194) false _ _ (by decide) (by decide)
    (by decide +kernel)

theorem nl_le {F : Type} [F64 F] (x : F) : nl x ≤ 59 := by
  unfold nl
  simp only
  split_ifs <;> omega

/-- A round trip of a position is within half a step, in the longitude modulo the circle. -/
def RoundTrips (lat lon : ℝ) (recentOdd : Bool) : Prop :=
  ∀ lat' lon', globalDecodeAirborne (encodeAirborne lat lon false) (encodeAirborne lat lon true)
    recentOdd = some (lat', lon') → Near nl recentOdd lat lon lat' lon'

theorem roundTrips_iff (lat lon : ℝ) (recentOdd : Bool) :
    RoundTrips lat lon recentOdd ↔
      ∀ lat' lon', decode nl (encode nl lat lon false) (encode nl lat lon true) recentOdd =
        some (lat', lon') → Near nl recentOdd lat lon lat' lon' := by
  unfold RoundTrips
  rw [encodeAirborne_eq, encodeAirborne_eq, encodeAirborneBy_eq, encodeAirborneBy_eq]
  simp only [globalDecodeAirborne_eq, globalDecodeAirborneBy_eq]

/-- Where the encoder's zone counts are not those of the nearest grid latitudes, and the frames
    decode, some longitude does not come back. -/
theorem sameZones_of_roundTrips {lat : ℝ} (h : |lat| ≤ 90)
    (hall : ∀ lon, -180 ≤ lon → lon < 180 → ∀ recentOdd, RoundTrips lat lon recentOdd)
    (hne : nl (gridLat false lat) = nl (gridLat true lat)) (odd : Bool) :
    SameZones nl odd lat := by
  by_contra hz
  obtain ⟨lon, h0, h1, lat', lon', hd, hn⟩ := exists_far h hne hz
  exact hn ((roundTrips_iff lat lon odd).1 (hall lon h0 h1 odd) lat' lon' hd)

/-- **Which latitudes come back**, with every longitude and from either frame: those whose two
    grid latitudes straddle a zone boundary, and are not decoded, and those at which the encoder
    takes in each format as many longitude zones as there are at the nearest grid latitude. -/
theorem round_trip_iff (lat : ℝ) (h : |lat| ≤ 90) :
    (∀ lon, -180 ≤ lon → lon < 180 → ∀ recentOdd, RoundTrips lat lon recentOdd) ↔
      nl (gridLat false lat) ≠ nl (gridLat true lat) ∨ ∀ odd, SameZones nl odd lat := by
  constructor
  · intro hall
    by_cases hne : nl (gridLat false lat) = nl (gridLat true lat)
    · exact Or.inr (sameZones_of_roundTrips h hall hne)
    · exact Or.inl hne
  · intro hor lon _ _ recentOdd
    rw [roundTrips_iff]
    intro lat' lon' hd
    rcases hor with hne | hs
    · rw [decode_encode h, if_pos hne] at hd
      cases hd
    · exact near_of_sameZones nl_le h hs lon recentOdd hd

/-- Half way to the pole both grids have a point. -/
theorem angle_midway (odd : Bool) : (45 : ℝ) = angle (latZones odd) (latZones odd * 2 ^ 14) := by
  have h : (latZones odd : ℝ) ≠ 0 := by exact_mod_cast (latZones_pos odd).ne'
  unfold angle steps
  push_cast
  field_simp
  norm_num

theorem gridLat_midway (odd : Bool) : gridLat odd (45 : ℝ) = 45 := by
  unfold gridLat
  rw [angle_midway odd, step_angle (latZones_pos odd)]

/-- A position half way to the pole comes back from either frame. -/
theorem round_trip_iff_midway :
    RoundTrips 45 (-73.5) false ∧
      ∃ lat' lon' : ℝ, globalDecodeAirborne (encodeAirborne (45 : ℝ) (-73.5) false)
        (encodeAirborne (45 : ℝ) (-73.5) true) true = some (lat', lon') ∧
        Near nl true 45 (-73.5) lat' lon' := by
  have h90 : |(45 : ℝ)| ≤ 90 := by norm_num [abs_of_pos]
  have hall := (round_trip_iff 45 h90).2 (Or.inr fun odd => by
    unfold SameZones
    rw [gridLat_midway]
    nth_rewrite 1 [angle_midway odd]
    rw [encLat_angle, ← angle_midway])
  refine ⟨hall (-73.5) (by norm_num) (by norm_num) false, ?_⟩
  have hdecodes : ∃ p : ℝ × ℝ, globalDecodeAirborne (encodeAirborne (45 : ℝ) (-73.5) false)
      (encodeAirborne (45 : ℝ) (-73.5) true) true = some p := by
    rw [encodeAirborne_eq, encodeAirborne_eq, encodeAirborneBy_eq, encodeAirborneBy_eq]
    simp only [globalDecodeAirborne_eq, globalDecodeAirborneBy_eq]
    rw [decode_encode h90, gridLat_midway, gridLat_midway, if_neg (not_not.2 rfl)]
    exact ⟨_, rfl⟩
  obtain ⟨p, hp⟩ := hdecodes
  exact ⟨p.1, p.2, hp, hall (-73.5) (by norm_num) (by norm_num) true p.1 p.2 hp⟩

/-! ## A metre off the pole -/

theorem nl_pole : nl (90 : ℝ) = 1 := by
  have h1 : ¬ F64.abs (90 : ℝ) < (10.47047130 : ℝ) := by
    show ¬ |(90 : ℝ)| < 10.47047130
    norm_num
  have h2 : (87.0 : ℝ) < F64.abs (90 : ℝ) := by
    show (87.0 : ℝ) < |(90 : ℝ)|
    norm_num
  unfold nl
  exact (if_neg h1).trans (if_pos h2)

/-- Six degrees off the pole there are two zones at least. -/
theorem two_le_nl : 2 ≤ nl (84 : ℝ) := by
  have hc0 : 0 < Real.cos (Real.pi / 30) :=
    Real.cos_pos_of_mem_Ioo ⟨by linarith [Real.pi_pos], by linarith [Real.pi_pos]⟩
  have hs0 : 0 < Real.sin (Real.pi / 30) :=
    Real.sin_pos_of_pos_of_lt_pi (by linarith [Real.pi_pos]) (by linarith [Real.pi_pos])
  have hsq := Real.sin_sq_add_cos_sq (Real.pi / 30)
  set c := Real.cos (Real.pi / 30) with hc
  -- the cosine of the zone's width is `c / (1 + c)`
  have hx : (1.0 : ℝ) - (1.0 - Real.cos (Real.pi / (2.0 * 15.0))) /
      (Real.cos (Real.pi * 84 / 180.0) * Real.cos (Real.pi * 84 / 180.0)) = c / (1 + c) := by
    have h1 : Real.pi / (2.0 * 15.0) = Real.pi / 30 := by norm_num
    have h2 : Real.pi * 84 / 180.0 = Real.pi / 2 - Real.pi / 30 := by
      norm_num
      ring
    rw [h1, h2, Real.cos_pi_div_two_sub, ← hc, ← sq]
    have h3 : Real.sin (Real.pi / 30) ^ 2 = (1 - c) * (1 + c) := by linarith
    have h4 : (1 - c) ≠ 0 := fun h => by
      rw [h, zero_mul] at h3
      exact (pow_pos hs0 2).ne' h3
    have h5 : 1 + c ≠ 0 := by linarith
    rw [h3]
    norm_num
    field_simp
    ring
  have hx1 : c / (1 + c) < 1 := (div_lt_one (by linarith)).2 (by linarith)
  have hx0 : 0 ≤ c / (1 + c) := div_nonneg hc0.le (by linarith)
  have hacos : 0 < Real.arccos (c / (1 + c)) := Real.arccos_pos.2 hx1
  have hy : (2 : ℤ) ≤ ⌊(2.0 : ℝ) * Real.pi / Real.arccos (c / (1 + c))⌋ := by
    rw [Int.le_floor, le_div_iff₀ hacos]
    have := Real.arccos_le_pi (c / (1 + c))
    norm_num
    linarith
  have h1 : ¬ F64.abs (84 : ℝ) < (10.47047130 : ℝ) := by
    show ¬ |(84 : ℝ)| < 10.47047130
    norm_num
  have h2 : ¬ (87.0 : ℝ) < F64.abs (84 : ℝ) := by
    show ¬ (87.0 : ℝ) < |(84 : ℝ)|
    norm_num
  have habs : F64.abs (84 : ℝ) = 84 := by
    show |(84 : ℝ)| = 84
    norm_num
  unfold nl
  simp only
  rw [if_neg h1, if_neg h2, habs]
  have hx' : (1.0 : ℝ) - (1.0 - F64.cos (F64.pi / (2.0 * nz))) /
      F64.sq (F64.cos (F64.pi * 84 / 180.0)) = c / (1 + c) := hx
  have hin : (-1.0 : ℝ) ≤ c / (1 + c) ∧ c / (1 + c) ≤ 1.0 := by
    constructor
    · norm_num
      linarith
    · norm_num
      exact hx1.le
  have hcount : 2 ≤ F64.asU32 (F64.floor ((2.0 : ℝ) * Real.pi / Real.arccos (c / (1 + c)))) := by
    unfold F64.asU32 F64.saturate
    rw [F64.Exact.floor, F64.Exact.trunc, Int.floor_intCast, Int.ceil_intCast, ite_self]
    omega
  refine le_of_le_of_eq ?_ (if_pos ?_).symm
  · rw [le_min_iff, le_max_iff]
    refine ⟨Or.inl ?_, by norm_num⟩
    refine hcount.trans_eq ?_
    exact congrArg (fun x : ℝ => F64.asU32 (F64.floor ((2.0 : ℝ) * Real.pi / Real.arccos x)))
      hx'.symm
  · exact hx'.symm ▸ hin

/-- The even latitude field of a position a metre south of the pole has wrapped to zero, and its
    longitude is encoded for the zones six degrees south of it. -/
theorem pole_wraps :
    ¬ ∀ lat lon recentOdd, -90 ≤ lat → lat ≤ 90 → -180 ≤ lon → lon < 180 →
      RoundTrips lat lon recentOdd := by
  intro h
  have hlat : |(90 - 1e-5 : ℝ)| ≤ 90 := by
    rw [abs_le]
    constructor <;> norm_num
  have hs : ∀ odd, step (latZones odd) (90 - 1e-5 : ℝ) = latZones odd * 2 ^ 15 := by
    intro odd
    unfold step
    rw [Grid.nearest_eq, Int.floor_eq_iff, steps_real]
    cases odd <;> norm_num [latZones]
  have hgrid : ∀ odd, gridLat odd (90 - 1e-5 : ℝ) = 90 := by
    intro odd
    unfold gridLat angle
    rw [hs, steps_real]
    cases odd <;> norm_num [latZones]
  have henc : encLat false (90 - 1e-5 : ℝ) = 84 := by
    have hf : ⌊((latZones false : ℕ) : ℝ) * ((90 - 1e-5) / 360)⌋ = 14 := by
      rw [Int.floor_eq_iff]
      norm_num [latZones]
    unfold encLat
    rw [hs, hf]
    norm_num [latZones, steps]
  have hsame := sameZones_of_roundTrips hlat
    (fun lon h0 h1 recentOdd => h _ lon recentOdd (abs_le.1 hlat).1 (abs_le.1 hlat).2 h0 h1)
    (by rw [hgrid, hgrid]) false
  have h2 := two_le_nl
  unfold SameZones at hsame
  rw [henc, hgrid, nl_pole] at hsame
  simp [lonZones] at hsame
  omega

end Mlatd
