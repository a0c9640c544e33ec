/-
  The smoothed track turned about the axis of the globe: the longitudes it is fed are taken to
  `[-180, 180)` one by one, the filter (track.rs) works on them as plain numbers.
-/
import Mlatd.Track
import Mlatd.Tracks.Prediction

namespace Mlatd

/-! ## What a track is fed -/

/-- An accepted fix as the solver gives it, with its time and its error estimate. -/
structure AcceptedFix where
  fix : Geodetic ℝ
  t : ℝ
  errEstM : ℝ
  /-- The solver takes every longitude to `[-180, 180)`. -/
  normalised : -180 ≤ fix.lonDeg ∧ fix.lonDeg < 180

namespace AcceptedFix

theorem turned_mem (θ : ℝ) (e : AcceptedFix) :
    -180 ≤ normLon (e.fix.lonDeg + θ) ∧ normLon (e.fix.lonDeg + θ) < 180 := normLon_mem _

/-- The fix with its longitude turned by `θ`. -/
noncomputable def rotate (θ : ℝ) (e : AcceptedFix) : AcceptedFix where
  fix := { e.fix with lonDeg := normLon (e.fix.lonDeg + θ) }
  t := e.t
  errEstM := e.errEstM
  normalised := turned_mem θ e

/-- The whole turns taken off the turned longitude. -/
noncomputable def turns (θ : ℝ) (e : AcceptedFix) : ℤ := ⌊(e.fix.lonDeg + θ + 180.0) / 360.0⌋

theorem rotate_lonDeg (θ : ℝ) (e : AcceptedFix) :
    (e.rotate θ).fix.lonDeg = e.fix.lonDeg + (θ - 360 * e.turns θ) := by
  have h180 : (180.0 : ℝ) = 180 := by norm_num
  have h360 : (360.0 : ℝ) = 360 := by norm_num
  show normLon (e.fix.lonDeg + θ) = _
  rw [normLon_eq, turns, h180, h360]
  ring

/-- Two fixes are turned across the cut at most once more or once less than each other. -/
theorem turns_le_succ (θ : ℝ) (a b : AcceptedFix) : a.turns θ ≤ b.turns θ + 1 := by
  have h180 : (180.0 : ℝ) = 180 := by norm_num
  have h360 : (360.0 : ℝ) = 360 := by norm_num
  have ha := a.normalised.2
  have hb := b.normalised.1
  have hstep : (a.fix.lonDeg + θ + 180.0) / 360.0 ≤ (b.fix.lonDeg + θ + 180.0) / 360.0 + 1 := by
    rw [h180, h360, div_add_one (by norm_num), div_le_div_iff_of_pos_right (by norm_num)]
    linarith
  calc a.turns θ ≤ ⌊(b.fix.lonDeg + θ + 180.0) / 360.0 + 1⌋ := Int.floor_le_floor hstep
    _ = b.turns θ + 1 := Int.floor_add_one _

end AcceptedFix

/-! ## The filter over a run of fixes -/

/-- The smoothed positions of the fixes that follow, in order. -/
noncomputable def outputs (f : TrackFilter ℝ) : List AcceptedFix → List (Geodetic ℝ)
  | [] => []
  | e :: es => (f.update e.fix e.t e.errEstM).2 :: outputs (f.update e.fix e.t e.errEstM).1 es

/-- What the filtered twin prints: the first fix as it is, then the smoothed ones. -/
noncomputable def smoothed (first : AcceptedFix) (es : List AcceptedFix) : List (Geodetic ℝ) :=
  first.fix :: outputs (TrackFilter.new first.fix first.t) es

/-- The second position is the first turned by `θ`, whole turns aside. -/
def Turned (θ : ℝ) (o o' : Geodetic ℝ) : Prop :=
  o'.latDeg = o.latDeg ∧ ∃ m : ℤ, o'.lonDeg = o.lonDeg + θ + m * 360.0

/-! ## One update -/

/-- How hard a fix pulls (`alpha`). -/
noncomputable def gain (n : ℕ) (errEstM : ℝ) : ℝ :=
  let quality : ℝ := F64.clamp (40.0 / F64.max errEstM 30.0) 0.15 0.8
  if n < 5 then F64.max quality 0.5 else quality

theorem gain_mem (n : ℕ) (errEstM : ℝ) : 0 < gain n errEstM ∧ gain n errEstM < 1 := by
  have hquality (x : ℝ) : 0 < max (0.15 : ℝ) (min x 0.8) ∧ max (0.15 : ℝ) (min x 0.8) < 1 :=
    ⟨lt_max_of_lt_left (by norm_num),
      max_lt (by norm_num) (lt_of_le_of_lt (min_le_right _ _) (by norm_num))⟩
  obtain ⟨h0, h1⟩ := hquality (40.0 / max errEstM 30.0)
  unfold gain
  split
  · exact ⟨lt_max_of_lt_left h0, max_lt h1 (by norm_num)⟩
  · exact ⟨h0, h1⟩

namespace TrackFilter

/-- The seconds an update coasts over. -/
noncomputable def coast (f : TrackFilter ℝ) (t : ℝ) : ℝ := F64.clamp (t - f.lastT) 0.0 30.0

theorem update_lonDeg (f : TrackFilter ℝ) (fix : Geodetic ℝ) (t errEstM : ℝ) :
    (f.update fix t errEstM).2.lonDeg = f.lon + f.vlon * f.coast t +
      gain f.n errEstM * (fix.lonDeg - (f.lon + f.vlon * f.coast t)) := rfl

theorem update_vlon (f : TrackFilter ℝ) (fix : Geodetic ℝ) (t errEstM : ℝ) :
    (f.update fix t errEstM).1.vlon =
      if (0.05 : ℝ) < f.coast t then
        f.vlon + gain f.n errEstM * gain f.n errEstM / (2.0 - gain f.n errEstM) *
          (fix.lonDeg - (f.lon + f.vlon * f.coast t)) / f.coast t
      else f.vlon := rfl

/-- The filter with its longitude moved by `c`. -/
noncomputable def shift (c : ℝ) (f : TrackFilter ℝ) : TrackFilter ℝ := { f with lon := f.lon + c }

/-- A fix moved by `d` where the filter was moved by `c`. -/
theorem update_shift_lonDeg (f : TrackFilter ℝ) (c d : ℝ) (fix : Geodetic ℝ) (t errEstM : ℝ) :
    ((f.shift c).update { fix with lonDeg := fix.lonDeg + d } t errEstM).2.lonDeg =
      (f.update fix t errEstM).2.lonDeg + c + gain f.n errEstM * (d - c) := by
  rw [update_lonDeg, update_lonDeg]
  show f.lon + c + f.vlon * f.coast t + gain f.n errEstM *
    (fix.lonDeg + d - (f.lon + c + f.vlon * f.coast t)) = _
  ring

/-- A fix moved by as much as the filter: the filter moves with them and keeps its speed. -/
theorem update_shift (f : TrackFilter ℝ) (c : ℝ) (fix : Geodetic ℝ) (t errEstM : ℝ) :
    ((f.shift c).update { fix with lonDeg := fix.lonDeg + c } t errEstM).1 =
      (f.update fix t errEstM).1.shift c := by
  have hlon : ((f.shift c).update { fix with lonDeg := fix.lonDeg + c } t errEstM).1.lon =
      (f.update fix t errEstM).1.lon + c := by
    have h := update_shift_lonDeg f c c fix t errEstM
    rw [sub_self, mul_zero, add_zero] at h
    exact h
  have hresidual : fix.lonDeg + c - (f.lon + c + f.vlon * f.coast t) =
      fix.lonDeg - (f.lon + f.vlon * f.coast t) := by ring
  have hvlon : ((f.shift c).update { fix with lonDeg := fix.lonDeg + c } t errEstM).1.vlon =
      (f.update fix t errEstM).1.vlon := by
    rw [update_vlon, update_vlon, ← hresidual]
    rfl
  -- The latitude, the time and the count do not look at the longitude.
  exact congrArg₂ (fun lon vlon => { (f.update fix t errEstM).1 with lon := lon, vlon := vlon })
    hlon hvlon

end TrackFilter

/-! ## Where the globe is cut -/

theorem eq_zero_of_gain {a : ℝ} {d m : ℤ} (h0 : 0 < a) (h1 : a < 1) (hd : |d| ≤ 1)
    (h : a * d = m) : d = 0 := by
  by_contra hne
  have habs : |d| = 1 := le_antisymm hd (Int.one_le_abs hne)
  have hcast : |(d : ℝ)| = 1 := by exact_mod_cast habs
  have hm : |(m : ℝ)| = a := by rw [← h, abs_mul, hcast, mul_one, abs_of_pos h0]
  have hpos : 0 < |m| := by exact_mod_cast hm ▸ h0
  have hlt : |m| < 1 := by exact_mod_cast hm ▸ h1
  omega

/-- One update of the filter and of the filter turned by `θ`, `k` whole turns taken off: the
    smoothed position is turned by `θ` when as many turns were taken off the fix. -/
theorem turned_update_iff (θ : ℝ) (f : TrackFilter ℝ) (k : ℤ) (e : AcceptedFix)
    (hk : |e.turns θ - k| ≤ 1) :
    Turned θ (f.update e.fix e.t e.errEstM).2
        ((f.shift (θ - 360 * k)).update (e.rotate θ).fix e.t e.errEstM).2 ↔
      e.turns θ = k := by
  obtain ⟨h0, h1⟩ := gain_mem f.n e.errEstM
  have h360 : (360.0 : ℝ) = 360 := by norm_num
  have hfix : (e.rotate θ).fix = { e.fix with lonDeg := e.fix.lonDeg + (θ - 360 * e.turns θ) } := by
    rw [← e.rotate_lonDeg]
    rfl
  have hout := f.update_shift_lonDeg (θ - 360 * k) (θ - 360 * e.turns θ) e.fix e.t e.errEstM
  rw [hfix, Turned, hout, h360]
  constructor
  · intro h
    obtain ⟨-, m, hm⟩ := h
    have hturn : gain f.n e.errEstM * ((e.turns θ - k : ℤ) : ℝ) = ((-k - m : ℤ) : ℝ) := by
      push_cast
      linarith
    have hzero := eq_zero_of_gain h0 h1 hk hturn
    omega
  · intro h
    refine ⟨rfl, -k, ?_⟩
    rw [h]
    push_cast
    ring

/-- The same over a run. -/
theorem turned_outputs_iff (θ : ℝ) (f : TrackFilter ℝ) (k : ℤ) (es : List AcceptedFix)
    (hk : ∀ e ∈ es, |e.turns θ - k| ≤ 1) :
    List.Forall₂ (Turned θ) (outputs f es)
        (outputs (f.shift (θ - 360 * k)) (es.map (AcceptedFix.rotate θ))) ↔
      ∀ e ∈ es, e.turns θ = k := by
  induction es generalizing f with
  | nil => simp [outputs]
  | cons e es ih =>
    have hhead := turned_update_iff θ f k e (hk e List.mem_cons_self)
    have htail := ih (f.update e.fix e.t e.errEstM).1
      fun e' he' => hk e' (List.mem_cons_of_mem _ he')
    rw [List.map_cons, outputs, outputs, List.forall₂_cons, List.forall_mem_cons]
    refine (and_congr_left' hhead).trans (and_congr_right fun h => ?_)
    have hfix : (e.rotate θ).fix = { e.fix with lonDeg := e.fix.lonDeg + (θ - 360 * k) } := by
      rw [← h, ← e.rotate_lonDeg]
      rfl
    have hnext : ((f.shift (θ - 360 * k)).update (e.rotate θ).fix (e.rotate θ).t
        (e.rotate θ).errEstM).1 = (f.update e.fix e.t e.errEstM).1.shift (θ - 360 * k) := by
      rw [hfix]
      exact f.update_shift _ e.fix e.t e.errEstM
    rw [hnext]
    exact htail

theorem new_rotate (θ : ℝ) (first : AcceptedFix) :
    TrackFilter.new (first.rotate θ).fix (first.rotate θ).t =
      (TrackFilter.new first.fix first.t).shift (θ - 360 * first.turns θ) := by
  show TrackFilter.mk _ (first.rotate θ).fix.lonDeg _ _ _ _ = _
  rw [first.rotate_lonDeg]
  rfl

theorem turned_rotate (θ : ℝ) (e : AcceptedFix) : Turned θ e.fix (e.rotate θ).fix := by
  refine ⟨rfl, -e.turns θ, ?_⟩
  have h360 : (360.0 : ℝ) = 360 := by norm_num
  rw [e.rotate_lonDeg, h360]
  push_cast
  ring

/-- The filter takes a longitude for a number: the smoothed track turns with the globe just when
    the turn takes as many whole turns off every fix as off the first, that is when no fix ends on
    the other side of the cut from the first. -/
theorem smoothed_turned_iff (θ : ℝ) (first : AcceptedFix) (es : List AcceptedFix) :
    List.Forall₂ (Turned θ) (smoothed first es)
        (smoothed (first.rotate θ) (es.map (AcceptedFix.rotate θ))) ↔
      ∀ e ∈ es, e.turns θ = first.turns θ := by
  rw [smoothed, smoothed, List.forall₂_cons, and_iff_right (turned_rotate θ first), new_rotate]
  apply turned_outputs_iff
  intro e _
  have h1 := AcceptedFix.turns_le_succ θ e first
  have h2 := AcceptedFix.turns_le_succ θ first e
  rw [abs_le]
  omega

theorem west_normalised : -180 ≤ (179.9 : ℝ) ∧ (179.9 : ℝ) < 180 := by norm_num

/-- A fix just west of the antimeridian. -/
noncomputable def westOfLine : AcceptedFix :=
  ⟨⟨50.0, 179.9, 10000.0⟩, 0.0, 100.0, west_normalised⟩

theorem east_normalised : -180 ≤ (-179.9 : ℝ) ∧ (-179.9 : ℝ) < 180 := by norm_num

/-- The next one, just east of it. -/
noncomputable def eastOfLine : AcceptedFix :=
  ⟨⟨50.0, -179.9, 10000.0⟩, 10.0, 100.0, east_normalised⟩

/-- The two fixes are a fifth of a degree apart. The second is smoothed to longitude `0`; turned by
    `0.2` they are both on one side, and it is smoothed to a place between them. -/
theorem swept_across : ¬ ∀ (θ : ℝ) (first : AcceptedFix) (es : List AcceptedFix),
    List.Forall₂ (Turned θ) (smoothed first es)
      (smoothed (first.rotate θ) (es.map (AcceptedFix.rotate θ))) := by
  intro h
  have hrun := h 0.2 westOfLine [eastOfLine]
  have hwest : westOfLine.turns 0.2 = 1 := by
    rw [AcceptedFix.turns, Int.floor_eq_iff]
    norm_num [westOfLine]
  have heast : eastOfLine.turns 0.2 = 0 := by
    rw [AcceptedFix.turns, Int.floor_eq_iff]
    norm_num [eastOfLine]
  rw [smoothed, smoothed, List.forall₂_cons, new_rotate] at hrun
  have hturns := (turned_outputs_iff 0.2 _ (westOfLine.turns 0.2) [eastOfLine]
    (by simp [hwest, heast])).1 hrun.2 eastOfLine List.mem_cons_self
  omega

/-! ## Latitude -/

/-- Two filters that differ in longitude and in its speed alone. -/
structure SameLat (f f' : TrackFilter ℝ) : Prop where
  lat : f'.lat = f.lat
  vlat : f'.vlat = f.vlat
  lastT : f'.lastT = f.lastT
  n : f'.n = f.n

theorem outputs_latDeg (θ : ℝ) {f f' : TrackFilter ℝ} (h : SameLat f f') (es : List AcceptedFix) :
    (outputs f' (es.map (AcceptedFix.rotate θ))).map Geodetic.latDeg =
      (outputs f es).map Geodetic.latDeg := by
  induction es generalizing f f' with
  | nil => rfl
  | cons e es ih =>
    obtain ⟨lat, lon, vlat, vlon, lastT, n⟩ := f
    obtain ⟨lat', lon', vlat', vlon', lastT', n'⟩ := f'
    obtain ⟨rfl, rfl, rfl, rfl⟩ := h
    exact congrArg₂ List.cons rfl (ih ⟨rfl, rfl, rfl, rfl⟩)

/-- The smoothed latitudes never depend on where longitude is cut. -/
theorem smoothed_latDeg (θ : ℝ) (first : AcceptedFix) (es : List AcceptedFix) :
    (smoothed (first.rotate θ) (es.map (AcceptedFix.rotate θ))).map Geodetic.latDeg =
      (smoothed first es).map Geodetic.latDeg := by
  have hnew : SameLat (TrackFilter.new first.fix first.t)
      (TrackFilter.new (first.rotate θ).fix (first.rotate θ).t) := ⟨rfl, rfl, rfl, rfl⟩
  exact congrArg (first.fix.latDeg :: ·) (outputs_latDeg θ hnew es)

end Mlatd
