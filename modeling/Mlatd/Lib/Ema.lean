/-
  An exponential average of a constant, and the average of what is left of its residuals.

  A residual is what the average leaves of the value `B`; the average takes a share of it, the
  gain, and the deviation then takes its share of the distance between residual and average.
  The gains vary at first and are steady from some step on. `tendsto_avg`: the average tends to
  `B`. The residual has the average taken off already, so the deviation tends to `|B|`, not to
  zero (`tendsto_dev`), and `dev_le_iff` says exactly when it ends below a bound.
-/
import Mathlib.Analysis.SpecificLimits.Normed

namespace Ema

open Filter Topology

/-- One observation at gain `k`: (average, deviation). -/
noncomputable def next (k B : ℝ) (x : ℝ × ℝ) : ℝ × ℝ :=
  let r := B - x.1
  let avg := x.1 + k * r
  (avg, x.2 + k * (|r - avg| - x.2))

/-- The error left after an observation. -/
theorem next_err (k B : ℝ) (x : ℝ × ℝ) : B - (next k B x).1 = (1 - k) * (B - x.1) := by
  unfold next
  ring

/-- The deviation's distance from the size of the value. -/
noncomputable def gap (B : ℝ) (x : ℝ × ℝ) : ℝ := x.2 - |B|

/-- What the error left in the average adds to it. -/
noncomputable def drive (k B e : ℝ) : ℝ := |B - (e + (1 - k) * e)| - |B|

theorem drive_def (k B e : ℝ) : drive k B e = |B - (2 - k) * e| - |B| := by
  unfold drive
  congr 2
  ring

theorem next_gap (k B : ℝ) (x : ℝ × ℝ) :
    gap B (next k B x) = (1 - k) * gap B x + k * drive k B (B - x.1) := by
  have h : B - x.1 - (x.1 + k * (B - x.1)) = -(B - (2 - k) * (B - x.1)) := by ring
  rw [drive_def]
  unfold gap next
  simp only [h, abs_neg]
  ring

theorem abs_drive_le {k : ℝ} (hk : k < 1) (B e : ℝ) : |drive k B e| ≤ (2 - k) * |e| := by
  rw [drive_def]
  calc |(|B - (2 - k) * e| - |B|)| ≤ |B - (2 - k) * e - B| := abs_abs_sub_abs_le _ _
    _ = |(2 - k) * e| := by rw [← abs_neg]; congr 1; ring
    _ = (2 - k) * |e| := by rw [abs_mul, abs_of_pos (by linarith : (0 : ℝ) < 2 - k)]

/-- Observations at the gains `k`, steady at `g` from step `N` on. -/
structure Observes (B g : ℝ) (N : ℕ) (k : ℕ → ℝ) (x : ℕ → ℝ × ℝ) : Prop where
  step : ∀ n, x (n + 1) = next (k n) B (x n)
  pos : ∀ n, 0 < k n
  lt_one : ∀ n, k n < 1
  steady : ∀ n, N ≤ n → k n = g

namespace Observes

variable {B g : ℝ} {N : ℕ} {k : ℕ → ℝ} {x : ℕ → ℝ × ℝ}

theorem gain_pos (h : Observes B g N k x) : 0 < g := by
  rw [← h.steady N le_rfl]
  exact h.pos N

theorem gain_lt_one (h : Observes B g N k x) : g < 1 := by
  rw [← h.steady N le_rfl]
  exact h.lt_one N

/-- From step `M` on the error decays at the steady rate. -/
theorem err_eq (h : Observes B g N k x) {M : ℕ} (hM : N ≤ M) (m : ℕ) :
    B - (x (M + m)).1 = (1 - g) ^ m * (B - (x M).1) := by
  induction m with
  | zero => rw [pow_zero, one_mul, Nat.add_zero]
  | succ m ih =>
    rw [← Nat.add_assoc, h.step, next_err, ih, h.steady (M + m) (by omega), pow_succ]
    ring

theorem tendsto_decay (h : Observes B g N k x) : Tendsto (fun m => (1 - g) ^ m) atTop (𝓝 0) :=
  tendsto_pow_atTop_nhds_zero_of_lt_one (by linarith [h.gain_lt_one]) (by linarith [h.gain_pos])

theorem tendsto_err (h : Observes B g N k x) : Tendsto (fun n => B - (x n).1) atTop (𝓝 0) := by
  rw [← tendsto_add_atTop_iff_nat N]
  have h1 := h.tendsto_decay.mul_const (B - (x N).1)
  rw [zero_mul] at h1
  refine h1.congr fun m => ?_
  rw [Nat.add_comm m N, h.err_eq le_rfl]

/-- The average tends to the value. -/
theorem tendsto_avg (h : Observes B g N k x) : Tendsto (fun n => (x n).1) atTop (𝓝 B) := by
  have h1 := h.tendsto_err.const_sub B
  rw [sub_zero] at h1
  exact h1.congr fun n => by ring

/-! ## The deviation -/

/-- How far from the size of the value the deviation can be, `m` steps after the gains are
    steady. -/
theorem abs_gap_le (h : Observes B g N k x) (m : ℕ) :
    |gap B (x (N + m))| ≤ (1 - g) ^ m * |gap B (x N)| +
      m * (1 - g) ^ m * (g * (2 - g) * |B - (x N).1| / (1 - g)) := by
  have hg := h.gain_pos
  have hg' := h.gain_lt_one
  induction m with
  | zero => simp
  | succ m ih =>
    have hpow : 0 < (1 - g) ^ m := pow_pos (by linarith) m
    have hdrive : |drive g B (B - (x (N + m)).1)| ≤ (2 - g) * ((1 - g) ^ m * |B - (x N).1|) := by
      have herr : |B - (x (N + m)).1| = (1 - g) ^ m * |B - (x N).1| := by
        rw [h.err_eq le_rfl, abs_mul, abs_of_pos hpow]
      rw [← herr]
      exact abs_drive_le hg' B _
    rw [← Nat.add_assoc, h.step, next_gap, h.steady (N + m) (by omega)]
    calc |(1 - g) * gap B (x (N + m)) + g * drive g B (B - (x (N + m)).1)|
        ≤ (1 - g) * |gap B (x (N + m))| + g * |drive g B (B - (x (N + m)).1)| := by
          refine (abs_add_le _ _).trans_eq ?_
          rw [abs_mul, abs_mul, abs_of_pos hg, abs_of_pos (by linarith : (0 : ℝ) < 1 - g)]
      _ ≤ (1 - g) * ((1 - g) ^ m * |gap B (x N)| +
            m * (1 - g) ^ m * (g * (2 - g) * |B - (x N).1| / (1 - g))) +
          g * ((2 - g) * ((1 - g) ^ m * |B - (x N).1|)) :=
          add_le_add (mul_le_mul_of_nonneg_left ih (by linarith))
            (mul_le_mul_of_nonneg_left hdrive hg.le)
      _ = (1 - g) ^ (m + 1) * |gap B (x N)| +
          (m + 1 : ℕ) * (1 - g) ^ (m + 1) * (g * (2 - g) * |B - (x N).1| / (1 - g)) := by
          have hne : 1 - g ≠ 0 := by linarith
          push_cast
          field_simp
          ring

/-- The deviation tends to the size of the value. -/
theorem tendsto_dev (h : Observes B g N k x) : Tendsto (fun n => (x n).2) atTop (𝓝 |B|) := by
  have hg := h.gain_pos
  have hg' := h.gain_lt_one
  have hbound : Tendsto (fun m : ℕ => (1 - g) ^ m * |gap B (x N)| +
      m * (1 - g) ^ m * (g * (2 - g) * |B - (x N).1| / (1 - g))) atTop (𝓝 0) := by
    have h1 := tendsto_self_mul_const_pow_of_lt_one (by linarith : (0 : ℝ) ≤ 1 - g) (by linarith)
    have h2 := (h.tendsto_decay.mul_const |gap B (x N)|).add
      (h1.mul_const (g * (2 - g) * |B - (x N).1| / (1 - g)))
    rwa [zero_mul, zero_mul, add_zero] at h2
  have hgap : Tendsto (fun m : ℕ => gap B (x (N + m))) atTop (𝓝 0) :=
    squeeze_zero_norm (fun m => h.abs_gap_le m) hbound
  rw [← tendsto_add_atTop_iff_nat N]
  have h3 := hgap.add_const |B|
  rw [zero_add] at h3
  refine h3.congr fun m => ?_
  rw [Nat.add_comm m N]
  unfold gap
  ring

/-! ## At the bound -/

/-- Being on an average's far or near side, or at rest below the bound, lasts. -/
theorem side_iff (h : Observes B g N k x) (n : ℕ) :
    (0 < B * (B - (x n).1) ↔ 0 < B * (B - (x 0).1)) ∧ (B = (x n).1 ↔ B = (x 0).1) ∧
      (B = (x 0).1 → (gap B (x n) ≤ 0 ↔ gap B (x 0) ≤ 0)) := by
  induction n with
  | zero => exact ⟨Iff.rfl, Iff.rfl, fun _ => Iff.rfl⟩
  | succ n ih =>
    have hk : 0 < 1 - k n := by linarith [h.lt_one n]
    have herr := next_err (k n) B (x n)
    rw [← h.step] at herr
    have heq : B = (x (n + 1)).1 ↔ B = (x n).1 := by
      rw [← sub_eq_zero, herr, mul_eq_zero, or_iff_right hk.ne', sub_eq_zero]
    refine ⟨?_, heq.trans ih.2.1, fun h0 => ?_⟩
    · rw [herr, mul_left_comm, mul_pos_iff_of_pos_left hk]
      exact ih.1
    · have hrest : B - (x n).1 = 0 := sub_eq_zero.2 (ih.2.1.2 h0)
      have hdrive : drive (k n) B 0 = 0 := by simp [drive]
      rw [h.step, next_gap, hrest, hdrive, mul_zero, add_zero, ← ih.2.2 h0]
      exact ⟨fun h1 => nonpos_of_mul_nonpos_right h1 hk,
        fun h1 => mul_nonpos_of_nonneg_of_nonpos hk.le h1⟩

/-- With little error left, on the side of zero or off it, the drive is the error's. -/
theorem drive_eq {k : ℝ} {B e : ℝ} (hB : B ≠ 0) (he : (2 - k) * |e| ≤ |B|) (hk : k < 1) :
    drive k B e = -((2 - k) * (B * e) / |B|) := by
  have hB' : 0 < |B| := abs_pos.2 hB
  have hsame : 0 ≤ B * (B - (2 - k) * e) := by
    have h1 : |(2 - k) * (B * e)| ≤ B * B := by
      calc |(2 - k) * (B * e)| = |B| * ((2 - k) * |e|) := by
            rw [abs_mul, abs_mul, abs_of_pos (by linarith : (0 : ℝ) < 2 - k)]
            ring
        _ ≤ |B| * |B| := mul_le_mul_of_nonneg_left he hB'.le
        _ = B * B := abs_mul_abs_self B
    have h2 := le_of_abs_le h1
    linarith [h2, mul_sub B B ((2 - k) * e), mul_left_comm B (2 - k) e]
  have h1 : |B| * |B - (2 - k) * e| = B * B - (2 - k) * (B * e) := by
    rw [← abs_mul, abs_of_nonneg hsame]
    ring
  rw [drive_def, eq_neg_iff_add_eq_zero]
  field_simp
  rw [mul_sub, h1, abs_mul_abs_self]
  ring

/-- Once the gains are steady and the error small, the deviation's distance from `|B|`. -/
theorem gap_eq (h : Observes B g N k x) (hB : B ≠ 0) {M : ℕ} (hM : N ≤ M)
    (hsmall : (2 - g) * |B - (x M).1| ≤ |B|) (m : ℕ) :
    gap B (x (M + m)) = (1 - g) ^ m *
      (gap B (x M) - m * (g * (2 - g) / ((1 - g) * |B|) * (B * (B - (x M).1)))) := by
  have hg := h.gain_pos
  have hg' := h.gain_lt_one
  have hne : 1 - g ≠ 0 := by linarith
  have hB' : |B| ≠ 0 := abs_ne_zero.2 hB
  induction m with
  | zero => simp
  | succ m ih =>
    have hpow : (1 - g) ^ m ≤ 1 := pow_le_one₀ (by linarith) (by linarith)
    have hpow' : 0 ≤ (1 - g) ^ m := pow_nonneg (by linarith) m
    have hsmall' : (2 - g) * |B - (x (M + m)).1| ≤ |B| := by
      refine le_trans ?_ hsmall
      rw [h.err_eq hM, abs_mul, abs_of_nonneg hpow']
      exact mul_le_mul_of_nonneg_left (mul_le_of_le_one_left (abs_nonneg _) hpow) (by linarith)
    rw [← Nat.add_assoc, h.step, next_gap, h.steady (M + m) (by omega), ih,
      drive_eq hB hsmall' hg', h.err_eq hM]
    push_cast
    field_simp
    ring

/-- From some step on, little error is left. -/
theorem exists_small (h : Observes B g N k x) (hB : B ≠ 0) :
    ∃ M, N ≤ M ∧ (2 - g) * |B - (x M).1| ≤ |B| := by
  have h1 : Tendsto (fun n => (2 - g) * |B - (x n).1|) atTop (𝓝 0) := by
    have h2 := h.tendsto_err.abs.const_mul (2 - g)
    rwa [abs_zero, mul_zero] at h2
  have h3 := (h1.eventually_lt_const (abs_pos.2 hB)).and (eventually_ge_atTop N)
  obtain ⟨M, h4, h5⟩ := h3.exists
  exact ⟨M, h5, h4.le⟩

/-- At the bound itself the deviation ends below it exactly when the average comes from the side
    of zero, or rests on the value with the deviation already there. -/
theorem gap_nonpos_iff (h : Observes B g N k x) (hB : B ≠ 0) :
    (∃ n₀, ∀ n, n₀ ≤ n → gap B (x n) ≤ 0) ↔
      0 < B * (B - (x 0).1) ∨ B = (x 0).1 ∧ gap B (x 0) ≤ 0 := by
  have hg := h.gain_pos
  have hg' := h.gain_lt_one
  obtain ⟨M, hM, hsmall⟩ := h.exists_small hB
  have hc : 0 < g * (2 - g) / ((1 - g) * |B|) :=
    div_pos (mul_pos hg (by linarith)) (mul_pos (by linarith) (abs_pos.2 hB))
  have hsign : ∀ m, gap B (x (M + m)) ≤ 0 ↔
      gap B (x M) ≤ m * (g * (2 - g) / ((1 - g) * |B|) * (B * (B - (x M).1))) := by
    intro m
    have hpow : 0 < (1 - g) ^ m := pow_pos (by linarith) m
    rw [h.gap_eq hB hM hsmall, ← sub_nonpos (a := gap B (x M))]
    exact ⟨fun h1 => nonpos_of_mul_nonpos_right h1 hpow,
      fun h1 => mul_nonpos_of_nonneg_of_nonpos hpow.le h1⟩
  obtain ⟨hside, hrest, hgap⟩ := h.side_iff M
  set c := g * (2 - g) / ((1 - g) * |B|) with hcdef
  constructor
  · rintro ⟨n₀, hn₀⟩
    rcases lt_trichotomy (B * (B - (x M).1)) 0 with h1 | h1 | h1
    · -- far side: the distance grows out of any bound
      obtain ⟨m, hm⟩ := exists_nat_gt (gap B (x M) / (c * (B * (B - (x M).1))))
      have hneg : c * (B * (B - (x M).1)) < 0 := mul_neg_of_pos_of_neg hc h1
      have h2 := (hsign (max m n₀)).1 (hn₀ _ (by omega))
      have h3 : ((max m n₀ : ℕ) : ℝ) * (c * (B * (B - (x M).1))) ≤
          m * (c * (B * (B - (x M).1))) :=
        mul_le_mul_of_nonpos_right (by exact_mod_cast le_max_left m n₀) hneg.le
      rw [div_lt_iff_of_neg hneg] at hm
      linarith
    · right
      have h2 : B = (x M).1 := by
        rcases mul_eq_zero.1 h1 with h3 | h3
        · exact absurd h3 hB
        · exact sub_eq_zero.1 h3
      have h4 := (hsign n₀).1 (hn₀ _ (by omega))
      rw [h1, mul_zero, mul_zero] at h4
      exact ⟨hrest.1 h2, (hgap (hrest.1 h2)).1 h4⟩
    · exact Or.inl (hside.1 h1)
  · rintro (h1 | ⟨h1, h2⟩)
    · have h3 := hside.2 h1
      have hpos : 0 < c * (B * (B - (x M).1)) := mul_pos hc h3
      obtain ⟨m, hm⟩ := exists_nat_gt (gap B (x M) / (c * (B * (B - (x M).1))))
      rw [div_lt_iff₀ hpos] at hm
      refine ⟨M + m, fun n hn => ?_⟩
      obtain ⟨j, rfl⟩ := Nat.exists_eq_add_of_le hn
      rw [Nat.add_assoc, hsign]
      refine hm.le.trans (mul_le_mul_of_nonneg_right ?_ hpos.le)
      exact_mod_cast Nat.le_add_right m j
    · refine ⟨0, fun n _ => ?_⟩
      exact ((h.side_iff n).2.2 h1).2 h2

/-- Exactly when the deviation ends below a bound. -/
theorem dev_le_iff (h : Observes B g N k x) {Q : ℝ} (hQ : 0 < Q) :
    (∃ n₀, ∀ n, n₀ ≤ n → (x n).2 ≤ Q) ↔
      |B| < Q ∨ |B| = Q ∧ (0 < B * (B - (x 0).1) ∨ B = (x 0).1 ∧ (x 0).2 ≤ Q) := by
  rcases lt_trichotomy |B| Q with h1 | h1 | h1
  · refine iff_of_true ?_ (Or.inl h1)
    obtain ⟨n₀, hn₀⟩ := eventually_atTop.1 (h.tendsto_dev.eventually_lt_const h1)
    exact ⟨n₀, fun n hn => (hn₀ n hn).le⟩
  · have hB : B ≠ 0 := by
      rintro rfl
      rw [abs_zero] at h1
      linarith
    have h2 := h.gap_nonpos_iff hB
    unfold gap at h2
    simp only [h1, sub_nonpos] at h2
    rw [h2]
    simp [h1]
  · refine iff_of_false ?_ (by rintro (h2 | h2) <;> linarith)
    rintro ⟨n₀, hn₀⟩
    obtain ⟨n₁, hn₁⟩ := eventually_atTop.1 (h.tendsto_dev.eventually_const_lt h1)
    have h3 := hn₁ (max n₀ n₁) (le_max_right _ _)
    have h4 := hn₀ (max n₀ n₁) (le_max_left _ _)
    linarith

end Observes

end Ema
