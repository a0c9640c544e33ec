/-
  When the sigma of a conversion covers the scatter of the fit behind it (clocksync.rs).

  `msq` averages the residuals of the observations that met a usable model; those before it are
  in the fit and not in `msq`. An observation is `Tight` when, as far as it is accepted, the refit
  is left with no more of it than the squared sigma that `convert` admits. As long as all are, the
  fit never scatters by more than that sigma (`convert_covers`), measured or not.
-/
import Mlatd.ClockDomain.Regression

namespace Mlatd

open Regression Run

namespace PairModel

/-- The root mean square of the residuals of `acc` about the model's own line, decayed. -/
noncomputable def rms (m : PairModel ℝ) (acc : List (ℝ × ℝ)) : ℝ :=
  Real.sqrt (m.residuals acc / weight lambda acc)

/-- The share of the squared residual of an observation that the refit is left with. -/
noncomputable def share (m : PairModel ℝ) (o : ℝ × ℝ) : ℝ :=
  lambda * m.w / (m.ingest o.1 o.2).w *
    if 0 < (m.ingest o.1 o.2).caa then lambda * m.caa / (m.ingest o.1 o.2).caa else 1

/-- What the gate lets through leaves no more than the square of the largest sigma admitted. -/
def Tight (m : PairModel ℝ) (o : ℝ × ℝ) : Prop :=
  ¬ m.Gated o → m.share o * m.residual o.1 o.2 ^ 2 ≤ maxPredSigmaS ^ 2

/-! ## Runs of tight observations -/

section
variable {m : PairModel ℝ} {acc : List (ℝ × ℝ)}

theorem Sums.share_eq (h : m.Sums acc) (o : ℝ × ℝ) : m.share o = leaves lambda acc Prod.fst o := by
  have h' := h.ingest o
  unfold share leaves
  rw [h.w, h.caa, h'.w, h'.caa]

/-- The residuals after an accepted observation. -/
theorem Sums.residuals_ingest (h : m.Sums acc) (o : ℝ × ℝ) :
    ((m.passed o).ingest o.1 o.2).residuals (acc ++ [o]) =
      lambda * m.residuals acc + m.share o * m.residual o.1 o.2 ^ 2 := by
  have h' := (h.passed o).ingest o
  rw [h'.residuals_eq, h.residuals_eq, h.share_eq, rss_concat lambda_pos o h.normal h'.normal,
    ← h.ma, ← h.mb]
  rfl

/-- The first observation leaves nothing: the line goes through it. -/
theorem share_default (o : ℝ × ℝ) : (default : PairModel ℝ).share o = 0 := by
  have hw : (lambda : ℝ) * (default : PairModel ℝ).w = 0 := by
    show (lambda : ℝ) * 0.0 = 0
    norm_num
  unfold share
  rw [hw, zero_div, zero_mul]

theorem Sums.share_le_one (h : m.Sums acc) (o : ℝ × ℝ) : m.share o ≤ 1 := by
  rw [h.share_eq]
  exact leaves_le_one lambda_pos.le acc Prod.fst o

/-- An observation no further from the line than the largest sigma admitted is tight. -/
theorem Sums.tight (h : m.Sums acc) {o : ℝ × ℝ} (ho : |m.residual o.1 o.2| ≤ maxPredSigmaS) :
    m.Tight o := by
  intro _
  calc m.share o * m.residual o.1 o.2 ^ 2 ≤ 1 * m.residual o.1 o.2 ^ 2 :=
        mul_le_mul_of_nonneg_right (h.share_le_one o) (sq_nonneg _)
    _ = |m.residual o.1 o.2| ^ 2 := by rw [one_mul, sq_abs]
    _ ≤ maxPredSigmaS ^ 2 := pow_le_pow_left₀ (abs_nonneg _) ho 2

end

/-- The fit scatters by no more than the largest sigma admitted. -/
def Covered (s : PairModel ℝ × Log) : Prop :=
  s.1.residuals s.2.accepted ≤ maxPredSigmaS ^ 2 * weight lambda s.2.accepted

theorem step_covered {s : PairModel ℝ × Log} (hfit : s.1.Fits s.2) (h : Covered s) {o : ℝ × ℝ}
    (ho : s.1.Tight o) : Covered (observe s o) := by
  obtain ⟨m, l⟩ := s
  dsimp only at hfit h ho
  unfold Covered observe Log.note at *
  rcases push_cases m o with ⟨hg, hp⟩ | ⟨-, hr, hp⟩ | ⟨-, hr, hp⟩
  · simp only [hp, if_true]
    rw [hfit.sums.residuals_ingest, weight_concat]
    have h1 := mul_le_mul_of_nonneg_left h lambda_pos.le
    have h2 := ho hg
    linarith
  · rw [hfit.rejects] at hr
    have hne : ¬ l.refused + 1 = resetAfterRejects := hr.ne
    simp only [hp, Bool.false_eq_true, if_false, hne]
    exact h
  · rw [hfit.rejects] at hr
    have heq : l.refused + 1 = resetAfterRejects := le_antisymm hfit.refused_lt hr
    simp only [hp, Bool.false_eq_true, if_false, heq, if_true]
    show (0 : ℝ) ≤ maxPredSigmaS ^ 2 * 0
    rw [mul_zero]

/-- The pushes of `obs` on a default model are all tight. -/
def TightRun (obs : List (ℝ × ℝ)) : Prop :=
  Steps (fun (m : PairModel ℝ) o => (m.push o.1 o.2).1) Tight default obs

theorem observed_covered {obs : List (ℝ × ℝ)} (h : TightRun obs) : Covered (observed obs) := by
  have hsteps := (@steps_proj _ (ℝ × ℝ) (fun (m : PairModel ℝ) o => (m.push o.1 o.2).1) _ observe
    Prod.fst (fun _ _ => rfl) Tight (default, Log.empty) obs).2 h
  refine (invariant_of_steps (I := fun s => s.1.Fits s.2 ∧ Covered s) ?_ ?_ hsteps).2
  · rintro s o ⟨hfit, hs⟩ ho
    exact ⟨step_fits hfit o, step_covered hfit hs ho⟩
  · refine ⟨fits_default, ?_⟩
    show (0 : ℝ) ≤ maxPredSigmaS ^ 2 * 0
    rw [mul_zero]

/-! ## What the sigma admits -/

section
variable {m : PairModel ℝ}

theorem convert_eq_some_iff {t : ℝ} {c : ℝ × ℝ} :
    m.convert t = some c ↔
      m.usable = true ∧ (m.predictUnchecked t).2 ≤ maxPredSigmaS ∧ c = m.predictUnchecked t := by
  unfold convert
  by_cases hu : m.usable = true
  · rw [if_neg (not_not_intro hu)]
    by_cases hs : maxPredSigmaS < (m.predictUnchecked t).2
    · have h : ¬ (m.predictUnchecked t).2 ≤ maxPredSigmaS := not_le.2 hs
      simp [hs, h]
    · simp [hs, hu, not_lt.1 hs, eq_comm]
  · simp [hu]

theorem weight_pos_of_usable {acc : List (ℝ × ℝ)} (h : m.Sums acc) (hu : m.usable = true) :
    0 < weight (lambda : ℝ) acc := by
  unfold usable at hu
  simp only [Bool.and_eq_true, decide_eq_true_eq] at hu
  rw [← h.w]
  have h8 : (minWeight : ℝ) = 8 := by
    show (8.0 : ℝ) = 8
    norm_num
  have h1 := hu.1
  rw [h8] at h1
  linarith

end

/-! ## Nine readings -/

theorem weight_le_length (obs : List (ℝ × ℝ)) : weight (lambda : ℝ) obs ≤ obs.length := by
  induction obs using List.reverseRecOn with
  | nil => exact Nat.cast_zero.ge
  | append_singleton obs o ih =>
    have h0 := weight_nonneg lambda_pos.le obs
    have h1 : weight (lambda : ℝ) obs * lambda ≤ weight (lambda : ℝ) obs * 1 :=
      mul_le_mul_of_nonneg_left (by rw [lambda_real]; norm_num) h0
    rw [weight_concat, List.length_append, List.length_singleton]
    push_cast
    linarith

/-- Up to eight observations do not make a model usable. -/
theorem not_usable_of_length_le {m : PairModel ℝ} {acc : List (ℝ × ℝ)} (h : m.Sums acc)
    (hn : acc.length ≤ 8) : ¬ m.usable = true := by
  intro hu
  have h8 : 8 ≤ weight (lambda : ℝ) acc := by
    unfold usable at hu
    simp only [Bool.and_eq_true, decide_eq_true_eq] at hu
    have h1 : (8.0 : ℝ) ≤ m.w := hu.1
    rw [h.w] at h1
    linarith
  rcases acc.eq_nil_or_concat' with rfl | ⟨acc, o, rfl⟩
  · have h0 : weight (lambda : ℝ) ([] : List (ℝ × ℝ)) = 0 := rfl
    linarith
  · rw [List.length_append, List.length_singleton] at hn
    have h1 := weight_le_length acc
    have h2 : (acc.length : ℝ) ≤ 7 := by exact_mod_cast (by omega : acc.length ≤ 7)
    rw [weight_concat] at h8
    generalize weight (lambda : ℝ) acc = w at h1 h8
    rw [lambda_real] at h8
    linarith

/-- The first nine observations are accepted as they come. -/
theorem observed_of_short (obs : List (ℝ × ℝ)) (hn : obs.length ≤ 9) :
    (observed obs).2.accepted = obs ∧ (observed obs).1.msq = 0 := by
  induction obs using List.reverseRecOn with
  | nil => exact ⟨rfl, by show (0.0 : ℝ) = 0; norm_num⟩
  | append_singleton obs o ih =>
    rw [List.length_append, List.length_singleton] at hn
    obtain ⟨hacc, hmsq⟩ := ih (by omega)
    have hfit := (observed_fits obs).sums
    have hu := not_usable_of_length_le hfit (by rw [hacc]; omega)
    have hpush : (observed obs).1.push o.1 o.2 = ((observed obs).1.ingest o.1 o.2, true) :=
      if_neg hu
    have h : observed (obs ++ [o]) =
        ((observed obs).1.ingest o.1 o.2, ⟨(observed obs).2.accepted ++ [o], 0⟩) := by
      unfold observed
      rw [exec_concat]
      show observe (observed obs) o = _
      unfold observe
      rw [hpush]
      rfl
    rw [h, hacc]
    exact ⟨rfl, hmsq⟩

/-- A reading a second. -/
noncomputable def seconds : List ℝ := [0, 1, 2.0, 3.0, 4.0, 5.0, 6.0, 7.0, 8.0]

theorem exists_nine {obs : List (ℝ × ℝ)} (hn : obs.length = 9) :
    ∃ o₀ o₁ o₂ o₃ o₄ o₅ o₆ o₇ o₈, obs = [o₀, o₁, o₂, o₃, o₄, o₅, o₆, o₇, o₈] := by
  match obs, hn with
  | [o₀, o₁, o₂, o₃, o₄, o₅, o₆, o₇, o₈], _ => exact ⟨o₀, o₁, o₂, o₃, o₄, o₅, o₆, o₇, o₈, rfl⟩

theorem wsum_nine (o₀ o₁ o₂ o₃ o₄ o₅ o₆ o₇ o₈ : ℝ × ℝ) (f : ℝ × ℝ → ℝ) :
    wsum lambda [o₀, o₁, o₂, o₃, o₄, o₅, o₆, o₇, o₈] f =
      0.9967 ^ 8 * f o₀ + 0.9967 ^ 7 * f o₁ + 0.9967 ^ 6 * f o₂ + 0.9967 ^ 5 * f o₃ +
      0.9967 ^ 4 * f o₄ + 0.9967 ^ 3 * f o₅ + 0.9967 ^ 2 * f o₆ + 0.9967 * f o₇ + f o₈ := by
  simp [wsum, Finset.sum_range_succ, lambda_real]

theorem weight_nine {obs : List (ℝ × ℝ)} (hn : obs.length = 9) :
    8 < weight (lambda : ℝ) obs := by
  obtain ⟨o₀, o₁, o₂, o₃, o₄, o₅, o₆, o₇, o₈, rfl⟩ := exists_nine hn
  unfold weight
  rw [wsum_nine]
  norm_num

/-- Nine readings, one a second of a clock that is not slow, spread far enough. -/
theorem spread_of_seconds {a : Clock} (hrate : 1 ≤ a.rate) {obs : List (ℝ × ℝ)}
    (hobs : obs.map Prod.fst = seconds.map a.read) :
    25 / 16 * weight (lambda : ℝ) obs < central (lambda : ℝ) obs Prod.fst Prod.fst := by
  have hn : obs.length = 9 := by
    rw [← List.length_map Prod.fst, hobs, List.length_map]
    rfl
  have hweight := weight_nine hn
  obtain ⟨o₀, o₁, o₂, o₃, o₄, o₅, o₆, o₇, o₈, rfl⟩ := exists_nine hn
  set obs := [o₀, o₁, o₂, o₃, o₄, o₅, o₆, o₇, o₈] with hdef
  have hwsum (f : ℝ × ℝ → ℝ) : wsum lambda obs f = _ := wsum_nine o₀ o₁ o₂ o₃ o₄ o₅ o₆ o₇ o₈ f
  simp only [hdef, seconds, List.map_cons, List.map_nil, List.cons.injEq, and_true] at hobs
  obtain ⟨h₀, h₁, h₂, h₃, h₄, h₅, h₆, h₇, h₈⟩ := hobs
  clear_value obs
  obtain ⟨s1, hs1⟩ : ∃ s1 : ℝ, s1 = 0.9967 ^ 7 + 0.9967 ^ 6 * 2 + 0.9967 ^ 5 * 3 +
      0.9967 ^ 4 * 4 + 0.9967 ^ 3 * 5 + 0.9967 ^ 2 * 6 + 0.9967 * 7 + 8 := ⟨_, rfl⟩
  obtain ⟨s2, hs2⟩ : ∃ s2 : ℝ, s2 = 0.9967 ^ 7 + 0.9967 ^ 6 * 4 + 0.9967 ^ 5 * 9 +
      0.9967 ^ 4 * 16 + 0.9967 ^ 3 * 25 + 0.9967 ^ 2 * 36 + 0.9967 * 49 + 64 := ⟨_, rfl⟩
  have hfst : wsum lambda obs Prod.fst = a.offset * weight lambda obs + a.rate * s1 := by
    unfold weight
    rw [hwsum, hwsum, h₀, h₁, h₂, h₃, h₄, h₅, h₆, h₇, h₈, hs1]
    norm_num [Clock.read]
    ring
  have hsq : wsum lambda obs (fun o => o.1 * o.1) =
      a.offset ^ 2 * weight lambda obs + 2 * a.offset * a.rate * s1 + a.rate ^ 2 * s2 := by
    unfold weight
    rw [hwsum, hwsum, h₀, h₁, h₂, h₃, h₄, h₅, h₆, h₇, h₈, hs1, hs2]
    norm_num [Clock.read]
    ring
  have hcentral : central (lambda : ℝ) obs Prod.fst Prod.fst =
      a.rate ^ 2 * (s2 - s1 ^ 2 / weight lambda obs) := by
    have hne : weight (lambda : ℝ) obs ≠ 0 := by linarith
    rw [central_eq lambda_pos.le, hsq]
    unfold mean
    rw [hfst]
    field_simp
    ring
  have hone : 1 ≤ a.rate ^ 2 := one_le_pow₀ hrate
  have hwide : 25 / 16 * weight (lambda : ℝ) obs < s2 - s1 ^ 2 / weight lambda obs := by
    unfold weight
    rw [hwsum, hs1, hs2]
    norm_num
  rw [hcentral]
  nlinarith

/-- Such readings make a model usable. -/
theorem usable_of_seconds {a : Clock} (hrate : 1 ≤ a.rate) {obs : List (ℝ × ℝ)}
    (hobs : obs.map Prod.fst = seconds.map a.read) : (observed obs).1.usable = true := by
  have hn : obs.length = 9 := by
    rw [← List.length_map Prod.fst, hobs, List.length_map]
    rfl
  obtain ⟨hacc, -⟩ := observed_of_short obs hn.le
  have hsums := (observed_fits obs).sums
  rw [hacc] at hsums
  have hweight := weight_nine hn
  have hmax : max (weight (lambda : ℝ) obs) 1.0 = weight (lambda : ℝ) obs :=
    max_eq_left (by norm_num; linarith)
  unfold usable
  rw [Bool.and_eq_true, decide_eq_true_eq, decide_eq_true_eq, hsums.w, hsums.caa]
  constructor
  · show (8.0 : ℝ) ≤ weight (lambda : ℝ) obs
    norm_num
    linarith
  · show (5.0 / 4.0) * (5.0 / 4.0) ≤
      central (lambda : ℝ) obs Prod.fst Prod.fst / max (weight (lambda : ℝ) obs) 1.0
    rw [hmax, le_div_iff₀ (by linarith)]
    exact (le_of_eq (by norm_num)).trans (spread_of_seconds hrate hobs).le

/-- A clock that reads the true time. -/
def trueClock : Clock := ⟨0, 1, one_pos⟩

theorem read_trueClock : trueClock.read = id := by
  funext T
  show 0 + 1 * T = T
  ring

/-- A model trained by the readings of two clocks is that of the readings as observations. -/
theorem exec_readings (a b : Clock) (Ts : List ℝ) :
    exec (fun (m : PairModel ℝ) (o : ℝ × ℝ) => (m.push o.1 o.2).1) default
      (Ts.map fun T => (a.read T, b.read T)) = train a b Ts :=
  List.foldl_map

theorem train_eq (a b : Clock) (Ts : List ℝ) :
    train a b Ts = (observed (Ts.map fun T => (a.read T, b.read T))).1 := by
  rw [← exec_readings]
  exact (@exec_proj _ _ _ _ observe Prod.fst (fun _ _ => rfl) (default, Log.empty) _).symm

/-- Between clocks of one rate a model on the line predicts along it, usable or not. -/
theorem OnLine.residual_eq {a b : Clock} {m : PairModel ℝ} (h : OnLine a b m)
    (hrate : a.slope b = 1) (T : ℝ) : m.residual (a.read T) (b.read T) = 0 := by
  have hbeta : m.beta = 1 := by
    unfold beta
    split
    · next hc =>
      have hne : m.caa ≠ 0 := by
        rw [show (0.0 : ℝ) = 0 by norm_num] at hc
        exact hc.ne'
      rw [h.slope, hrate, one_mul, div_self hne]
    · norm_num
  show b.read T - (m.mb + m.beta * (a.read T - m.ma)) = 0
  rw [hbeta, h.mean, ← hrate, ← Clock.carry_add, add_sub_cancel, Clock.carry_read, sub_self]

/-- A model nine readings old converts with no sigma at all. -/
theorem convert_of_seconds {obs : List (ℝ × ℝ)}
    (hobs : obs.map Prod.fst = seconds.map trueClock.read) (t : ℝ) :
    (observed obs).1.convert t = some ((observed obs).1.predictUnchecked t) := by
  have hn : obs.length = 9 := by
    rw [← List.length_map Prod.fst, hobs, List.length_map]
    rfl
  refine convert_eq_some_iff.2 ⟨usable_of_seconds le_rfl hobs, ?_, rfl⟩
  show Real.sqrt (observed obs).1.msq * _ ≤ _
  rw [(observed_of_short obs hn.le).2, Real.sqrt_zero, zero_mul]
  exact maxPredSigmaS_nonneg

/-- **A conversion's sigma covers the scatter of the fit**, after every push of a run in which
    none is accepted that leaves more than the square of the largest sigma admitted. -/
theorem convert_covers (obs : List (ℝ × ℝ)) (h : TightRun obs) (n : ℕ) (t : ℝ) (c : ℝ × ℝ)
    (hc : (observed (obs.take n)).1.convert t = some c) :
    (observed (obs.take n)).1.rms (observed (obs.take n)).2.accepted ≤ maxPredSigmaS := by
  have hw := weight_pos_of_usable (observed_fits (obs.take n)).sums (convert_eq_some_iff.1 hc).1
  unfold rms
  rw [Real.sqrt_le_left maxPredSigmaS_nonneg, div_le_iff₀ hw]
  exact observed_covered (h.take n)

/-- A reading off the line by no more than the sigma admitted is tight. -/
theorem tight_train {a b : Clock} (hrate : a.slope b = 1) (Ts : List ℝ) (T : ℝ) {d : ℝ}
    (hd : |d| ≤ maxPredSigmaS) : (train a b Ts).Tight (a.read T, b.read T + d) := by
  rcases train_onLine a b Ts with h | h
  · rw [h]
    intro _
    rw [share_default, zero_mul]
    exact sq_nonneg _
  · have hsums := (observed_fits (Ts.map fun T => (a.read T, b.read T))).sums
    rw [← train_eq] at hsums
    refine hsums.tight ?_
    have hres : (train a b Ts).residual (a.read T) (b.read T + d) =
        (train a b Ts).residual (a.read T) (b.read T) + d := by
      unfold PairModel.residual
      ring
    rw [hres, h.residual_eq hrate, zero_add]
    exact hd

theorem tightRun_readings {a b : Clock} (hrate : a.slope b = 1) (Ts : List ℝ) :
    TightRun (Ts.map fun T => (a.read T, b.read T)) := by
  induction Ts using List.reverseRecOn with
  | nil => trivial
  | append_singleton Ts T ih =>
    rw [List.map_append]
    refine (steps_append _ _ _).2 ⟨ih, ?_, trivial⟩
    rw [exec_readings]
    have h := tight_train hrate Ts T (d := 0) (by rw [abs_zero]; exact maxPredSigmaS_nonneg)
    rwa [add_zero] at h

/-- The last of nine readings is 1 µs late. -/
noncomputable def late : List (ℝ × ℝ) :=
  [(0, 0), (1, 1), (2.0, 2.0), (3.0, 3.0), (4.0, 4.0), (5.0, 5.0), (6.0, 6.0), (7.0, 7.0),
    (8.0, 8.0 + 1e-6)]

theorem late_eq : late = (seconds.take 8).map (fun T => (trueClock.read T, trueClock.read T)) ++
    [(8.0, 8.0 + 1e-6)] := by
  rw [read_trueClock]
  rfl

/-- The ninth reading is not measured, and what it leaves is within the sigma. -/
theorem convert_covers_late :
    (observed late).1.convert 0 = some ((observed late).1.predictUnchecked 0) ∧
      (observed late).1.rms late ≤ maxPredSigmaS := by
  have hfst : late.map Prod.fst = seconds.map trueClock.read := by
    rw [read_trueClock, List.map_id]
    rfl
  have hslope : trueClock.slope trueClock = 1 := div_self one_ne_zero
  have htight : TightRun late := by
    rw [late_eq]
    refine (steps_append _ _ _).2 ⟨tightRun_readings hslope _, ?_, trivial⟩
    have hd : |(1e-6 : ℝ)| ≤ maxPredSigmaS := by
      rw [abs_of_pos (by norm_num)]
      show (1e-6 : ℝ) ≤ 2e-6
      norm_num
    have h := tight_train hslope (seconds.take 8) 8.0 hd
    rw [read_trueClock] at h
    rw [exec_readings]
    exact h
  have hconv := convert_of_seconds hfst 0
  have hcov := convert_covers late htight 9 0 _ hconv
  rw [show late.take 9 = late from rfl, (observed_of_short late (by decide)).1] at hcov
  exact ⟨hconv, hcov⟩

/-! ## A young model -/

/-- A reading a second; every other of the to-clock is 10 µs late. -/
noncomputable def scattered : List (ℝ × ℝ) :=
  [(0, 0), (1, 1 + 1e-5), (2.0, 2.0), (3.0, 3.0 + 1e-5), (4.0, 4.0), (5.0, 5.0 + 1e-5), (6.0, 6.0),
    (7.0, 7.0 + 1e-5), (8.0, 8.0)]

theorem scattered_fst : scattered.map Prod.fst = seconds.map trueClock.read := by
  rw [read_trueClock, List.map_id]
  rfl

/-- No line comes near the scattered readings. -/
theorem scattered_residuals (s : ℝ) :
    4e-12 * weight (lambda : ℝ) scattered <
      rss (lambda : ℝ) scattered Prod.fst Prod.snd s := by
  have hc : 0 < central (lambda : ℝ) scattered Prod.fst Prod.fst :=
    (mul_pos (by norm_num) (by linarith [weight_nine (show scattered.length = 9 from rfl)])).trans
      (spread_of_seconds le_rfl scattered_fst)
  have h : 4e-12 * weight (lambda : ℝ) scattered *
        central (lambda : ℝ) scattered Prod.fst Prod.fst <
      central (lambda : ℝ) scattered Prod.snd Prod.snd *
          central (lambda : ℝ) scattered Prod.fst Prod.fst -
        central (lambda : ℝ) scattered Prod.fst Prod.snd ^ 2 := by
    rw [central_eq lambda_pos.le, central_eq lambda_pos.le, central_eq lambda_pos.le]
    unfold mean weight
    rw [scattered, wsum_nine, wsum_nine, wsum_nine, wsum_nine, wsum_nine, wsum_nine]
    norm_num
  rw [rss_eq]
  refine lt_of_mul_lt_mul_right (h.trans_le ?_) hc.le
  have h2 := sq_nonneg (s * central (lambda : ℝ) scattered Prod.fst Prod.fst -
    central (lambda : ℝ) scattered Prod.fst Prod.snd)
  linarith

/-- A model nine observations old converts with no sigma at all, whatever their scatter. -/
theorem young_model_uncovered :
    ¬ ∀ obs t c, (observed obs).1.convert t = some c →
      (observed obs).1.rms (observed obs).2.accepted ≤ maxPredSigmaS := by
  intro hall
  obtain ⟨hacc, -⟩ := observed_of_short scattered (by decide)
  have hsums := (observed_fits scattered).sums
  rw [hacc] at hsums
  have hw := weight_nine (show scattered.length = 9 from rfl)
  have h := hall scattered 0 _ (convert_of_seconds scattered_fst 0)
  unfold rms at h
  rw [hacc, Real.sqrt_le_left maxPredSigmaS_nonneg, hsums.residuals_eq,
    div_le_iff₀ (by linarith)] at h
  have hlt := scattered_residuals (observed scattered).1.beta
  have hsq : (maxPredSigmaS : ℝ) ^ 2 = 4e-12 := by
    show (2e-6 : ℝ) ^ 2 = 4e-12
    norm_num
  rw [hsq] at h
  exact absurd h (not_le.2 hlt)

end PairModel

end Mlatd
