/-
  The straight-line regression of observations that are forgotten at a constant rate: of `n`
  observations the `i`-th, from zero, weighs `lam ^ (n - 1 - i)`.

  The batch quantities are sums over all observations (`wsum`, `mean`, `central`). Each is carried
  on by one new observation alone (`wsum_concat`, `mean_concat`, `central_concat`), and so is the
  sum of squared residuals about the fitted line (`rss_concat`): a share `leaves` of the residual
  that the old line had at the new observation stays. `rss_le`: the fitted line is the line of
  least squares.
-/
import Mathlib.Algebra.BigOperators.Ring.Finset
import Mathlib.Algebra.Order.BigOperators.Ring.Finset
import Mathlib.Algebra.Order.Field.Basic
import Mathlib.Data.List.GetD
import Mathlib.Tactic.FieldSimp
import Mathlib.Tactic.Linarith
import Mathlib.Tactic.LinearCombination
import Mathlib.Tactic.Ring

namespace Regression

open Finset

variable {K : Type} [Field K]

/-- The decayed sum of `f` over the observations, oldest first. -/
def wsum {α : Type} [Inhabited α] (lam : K) (obs : List α) (f : α → K) : K :=
  ∑ i ∈ range obs.length, lam ^ (obs.length - 1 - i) * f (obs.getD i default)

/-- The decayed number of observations. -/
def weight {α : Type} [Inhabited α] (lam : K) (obs : List α) : K := wsum lam obs fun _ => 1

def mean {α : Type} [Inhabited α] (lam : K) (obs : List α) (f : α → K) : K :=
  wsum lam obs f / weight lam obs

/-- The decayed sum of products of the distances to the means. -/
def central {α : Type} [Inhabited α] (lam : K) (obs : List α) (f g : α → K) : K :=
  wsum lam obs fun o => (f o - mean lam obs f) * (g o - mean lam obs g)

/-! ## Sums -/

section
variable {α : Type} [Inhabited α] (lam : K) (obs : List α) (f g : α → K)

theorem wsum_concat (o : α) : wsum lam (obs ++ [o]) f = lam * wsum lam obs f + f o := by
  unfold wsum
  rw [List.length_append, List.length_singleton, sum_range_succ, mul_sum]
  congr 1
  · refine sum_congr rfl fun i hi => ?_
    have hi := mem_range.1 hi
    rw [show obs.length + 1 - 1 - i = obs.length - 1 - i + 1 by omega, pow_succ,
      List.getD_append _ _ _ _ hi]
    ring
  · rw [Nat.add_sub_cancel, Nat.sub_self, pow_zero, one_mul,
      List.getD_append_right _ _ _ _ le_rfl, Nat.sub_self]
    rfl

theorem wsum_add : wsum lam obs (fun o => f o + g o) = wsum lam obs f + wsum lam obs g := by
  simp [wsum, mul_add, sum_add_distrib]

theorem wsum_const_mul (c : K) : wsum lam obs (fun o => c * f o) = c * wsum lam obs f := by
  unfold wsum
  rw [mul_sum]
  exact sum_congr rfl fun i _ => by ring

theorem weight_concat (o : α) : weight lam (obs ++ [o]) = weight lam obs * lam + 1 := by
  unfold weight
  rw [wsum_concat, mul_comm]

/-- The products about two points, from the sums. -/
theorem wsum_about (p q : K) :
    wsum lam obs (fun o => (f o - p) * (g o - q)) =
      wsum lam obs (fun o => f o * g o) - q * wsum lam obs f - p * wsum lam obs g +
        p * q * weight lam obs := by
  have h : (fun o => (f o - p) * (g o - q)) =
      fun o => f o * g o + (-q * f o + (-p * g o + p * q * 1)) := by
    funext o
    ring
  rw [h, wsum_add, wsum_add, wsum_add, wsum_const_mul, wsum_const_mul, wsum_const_mul]
  unfold weight
  ring

end

/-! ## One more observation -/

section
variable {α : Type} [Inhabited α] [LinearOrder K] [IsStrictOrderedRing K]
  {lam : K} {obs : List α} {f g : α → K}

theorem wsum_nonneg (hlam : 0 ≤ lam) (hf : ∀ o, 0 ≤ f o) : 0 ≤ wsum lam obs f :=
  sum_nonneg fun _ _ => mul_nonneg (pow_nonneg hlam _) (hf _)

theorem weight_nonneg (hlam : 0 ≤ lam) (obs : List α) : 0 ≤ weight lam obs :=
  wsum_nonneg hlam fun _ => zero_le_one

theorem weight_concat_pos (hlam : 0 ≤ lam) (obs : List α) (o : α) :
    0 < weight lam (obs ++ [o]) := by
  rw [weight_concat]
  exact add_pos_of_nonneg_of_pos (mul_nonneg (weight_nonneg hlam obs) hlam) one_pos

theorem weight_mul_mean (hlam : 0 ≤ lam) (obs : List α) (f : α → K) :
    weight lam obs * mean lam obs f = wsum lam obs f := by
  rcases obs.eq_nil_or_concat' with rfl | ⟨obs, o, rfl⟩
  · exact zero_mul _
  · unfold mean
    exact mul_div_cancel₀ _ (weight_concat_pos hlam obs o).ne'

theorem mean_concat (hlam : 0 ≤ lam) (o : α) :
    mean lam (obs ++ [o]) f =
      mean lam obs f + 1 / weight lam (obs ++ [o]) * (f o - mean lam obs f) := by
  have hw := (weight_concat_pos hlam obs o).ne'
  have h := weight_mul_mean hlam (obs ++ [o]) f
  rw [wsum_concat, ← weight_mul_mean hlam obs f] at h
  refine mul_left_cancel₀ hw (h.trans ?_)
  linear_combination (mean lam obs f - f o) * mul_one_div_cancel hw -
    mean lam obs f * weight_concat lam obs o

/-- A new observation's distance to the moved mean. -/
theorem sub_mean_concat (hlam : 0 ≤ lam) (o : α) :
    f o - mean lam (obs ++ [o]) f =
      lam * weight lam obs / weight lam (obs ++ [o]) * (f o - mean lam obs f) := by
  have h := weight_mul_mean hlam (obs ++ [o]) f
  rw [wsum_concat, ← weight_mul_mean hlam obs f] at h
  rw [div_mul_eq_mul_div, eq_div_iff (weight_concat_pos hlam obs o).ne']
  linear_combination f o * weight_concat lam obs o - h

theorem central_eq (hlam : 0 ≤ lam) (obs : List α) (f g : α → K) :
    central lam obs f g =
      wsum lam obs (fun o => f o * g o) - weight lam obs * mean lam obs f * mean lam obs g := by
  unfold central
  rw [wsum_about, ← weight_mul_mean hlam obs f, ← weight_mul_mean hlam obs g]
  ring

theorem central_concat (hlam : 0 ≤ lam) (o : α) :
    central lam (obs ++ [o]) f g =
      central lam obs f g * lam + (f o - mean lam obs f) * (g o - mean lam (obs ++ [o]) g) := by
  have hf := weight_mul_mean hlam (obs ++ [o]) f
  have hg := weight_mul_mean hlam (obs ++ [o]) g
  rw [wsum_concat, ← weight_mul_mean hlam obs f] at hf
  rw [wsum_concat, ← weight_mul_mean hlam obs g] at hg
  rw [central_eq hlam, central_eq hlam, wsum_concat, hf]
  rw [weight_concat] at hg
  linear_combination -mean lam obs f * hg

theorem central_self_nonneg (hlam : 0 ≤ lam) (obs : List α) (f : α → K) :
    0 ≤ central lam obs f f :=
  wsum_nonneg hlam fun _ => mul_self_nonneg _

end

/-! ## Squared residuals -/

section
variable {α : Type} [Inhabited α]

/-- The decayed sum of squared residuals of `g` about the line of slope `s` in `f` through the
    means. -/
def rss (lam : K) (obs : List α) (f g : α → K) (s : K) : K :=
  wsum lam obs fun o => (g o - (mean lam obs g + s * (f o - mean lam obs f))) ^ 2

theorem rss_eq (lam : K) (obs : List α) (f g : α → K) (s : K) :
    rss lam obs f g s =
      central lam obs g g - 2 * s * central lam obs f g + s ^ 2 * central lam obs f f := by
  have h : (fun o => (g o - (mean lam obs g + s * (f o - mean lam obs f))) ^ 2) = fun o =>
      (g o - mean lam obs g) * (g o - mean lam obs g) +
        (-2 * s * ((f o - mean lam obs f) * (g o - mean lam obs g)) +
          s ^ 2 * ((f o - mean lam obs f) * (f o - mean lam obs f))) := by
    funext o
    ring
  unfold rss central
  rw [h, wsum_add, wsum_add, wsum_const_mul, wsum_const_mul]
  ring

/-- Squared residuals along another slope. -/
theorem rss_of_slope {lam : K} {obs : List α} {f g : α → K} {s : K}
    (hs : s * central lam obs f f = central lam obs f g) (q : K) :
    rss lam obs f g q = rss lam obs f g s + (q - s) ^ 2 * central lam obs f f := by
  rw [rss_eq, rss_eq, ← hs]
  ring

variable [LinearOrder K] [IsStrictOrderedRing K] {lam : K} {obs : List α} {f g : α → K} {s : K}

theorem rss_nonneg (hlam : 0 ≤ lam) (obs : List α) (f g : α → K) (s : K) :
    0 ≤ rss lam obs f g s :=
  wsum_nonneg hlam fun _ => sq_nonneg _

/-- Squared residuals about any line: those about the parallel through the means, and the
    distance of the two lines at each observation. -/
theorem wsum_line (hlam : 0 ≤ lam) (p q : K) :
    wsum lam obs (fun o => (g o - (p + q * f o)) ^ 2) =
      rss lam obs f g q +
        weight lam obs * (mean lam obs g - (p + q * mean lam obs f)) ^ 2 := by
  have h : ∀ c, (fun o => (g o - (c + q * f o)) ^ 2) = fun o =>
      g o * g o + (-2 * q * (f o * g o) + (q ^ 2 * (f o * f o) +
        (-2 * c * g o + (2 * c * q * f o + c ^ 2 * 1)))) := by
    intro c
    funext o
    ring
  have h1 : rss lam obs f g q = wsum lam obs fun o =>
      (g o - (mean lam obs g - q * mean lam obs f + q * f o)) ^ 2 := by
    unfold rss
    congr 1
    funext o
    ring
  have hw : wsum lam obs (fun _ => 1) = weight lam obs := rfl
  rw [h1, h, h]
  simp only [wsum_add, wsum_const_mul, hw]
  rw [← weight_mul_mean hlam obs f, ← weight_mul_mean hlam obs g]
  ring

/-- Without spread in `f` there is no covariance either. -/
theorem central_eq_zero (hlam : 0 ≤ lam) (hc : central lam obs f f = 0) :
    central lam obs f g = 0 := by
  by_contra h
  -- along a line steep enough the squared residuals would be negative
  have h1 := rss_nonneg hlam obs f g ((central lam obs g g + 1) / (2 * central lam obs f g))
  rw [rss_eq, hc, mul_zero, add_zero] at h1
  have h2 : 2 * ((central lam obs g g + 1) / (2 * central lam obs f g)) * central lam obs f g =
      central lam obs g g + 1 := by
    field_simp
  linarith

/-- The line of least squares: a slope that solves the normal equation, through the means. -/
theorem rss_le (hlam : 0 ≤ lam) (hs : s * central lam obs f f = central lam obs f g) (p q : K) :
    rss lam obs f g s ≤ wsum lam obs fun o => (g o - (p + q * f o)) ^ 2 := by
  rw [wsum_line hlam, rss_of_slope hs q, add_assoc]
  exact le_add_of_nonneg_right (add_nonneg
    (mul_nonneg (sq_nonneg _) (central_self_nonneg hlam obs f))
    (mul_nonneg (weight_nonneg hlam obs) (sq_nonneg _)))

/-- Where `f` spreads, no other line has residuals as small. -/
theorem line_unique (hlam : 0 ≤ lam) (hs : s * central lam obs f f = central lam obs f g)
    (hc : 0 < central lam obs f f) {p q : K}
    (h : wsum lam obs (fun o => (g o - (p + q * f o)) ^ 2) ≤ rss lam obs f g s) :
    q = s ∧ p = mean lam obs g - s * mean lam obs f := by
  have hw : 0 < weight lam obs := by
    refine lt_of_le_of_ne (weight_nonneg hlam obs) fun h0 => hc.ne' ?_
    rcases obs.eq_nil_or_concat' with rfl | ⟨obs, o, rfl⟩
    · rfl
    · exact absurd h0 (weight_concat_pos hlam obs o).ne
  rw [wsum_line hlam, rss_of_slope hs q] at h
  have h1 := mul_nonneg (sq_nonneg (q - s)) hc.le
  have h2 := mul_nonneg hw.le (sq_nonneg (mean lam obs g - (p + q * mean lam obs f)))
  have hq : (q - s) ^ 2 * central lam obs f f = 0 := by linarith
  have hp : weight lam obs * (mean lam obs g - (p + q * mean lam obs f)) ^ 2 = 0 := by linarith
  obtain rfl : q = s := sub_eq_zero.1 (pow_eq_zero_iff two_ne_zero |>.1
    ((mul_eq_zero.1 hq).resolve_right hc.ne'))
  have hp := sub_eq_zero.1 (pow_eq_zero_iff two_ne_zero |>.1
    ((mul_eq_zero.1 hp).resolve_left hw.ne'))
  exact ⟨rfl, (sub_eq_of_eq_add hp).symm⟩

/-- The share of a new observation's squared residual that the refitted line is left with. -/
def leaves (lam : K) (obs : List α) (f : α → K) (o : α) : K :=
  lam * weight lam obs / weight lam (obs ++ [o]) *
    if 0 < central lam (obs ++ [o]) f f then
      lam * central lam obs f f / central lam (obs ++ [o]) f f
    else 1

theorem central_concat_le (hlam : 0 ≤ lam) (o : α) :
    lam * central lam obs f f ≤ central lam (obs ++ [o]) f f := by
  have hd : 0 ≤ lam * weight lam obs / weight lam (obs ++ [o]) :=
    div_nonneg (mul_nonneg hlam (weight_nonneg hlam obs)) (weight_nonneg hlam _)
  rw [central_concat hlam, sub_mean_concat hlam, mul_left_comm, mul_comm lam]
  exact le_add_of_nonneg_right (mul_nonneg hd (mul_self_nonneg _))

theorem leaves_le_one (hlam : 0 ≤ lam) (obs : List α) (f : α → K) (o : α) :
    leaves lam obs f o ≤ 1 := by
  have hw : lam * weight lam obs / weight lam (obs ++ [o]) ≤ 1 := by
    rw [div_le_one (weight_concat_pos hlam obs o), weight_concat, mul_comm]
    exact le_add_of_nonneg_right zero_le_one
  unfold leaves
  split_ifs with hpos
  · have hc : lam * central lam obs f f / central lam (obs ++ [o]) f f ≤ 1 :=
      (div_le_one hpos).2 (central_concat_le hlam o)
    exact mul_le_one₀ hw
      (div_nonneg (mul_nonneg hlam (central_self_nonneg hlam obs f)) hpos.le) hc
  · rw [mul_one]
    exact hw

/-- The squared residuals after one more observation: the old ones decayed, and a share of the
    residual of the new one about the old line. -/
theorem rss_concat (hlam : 0 < lam) (o : α) {t : K}
    (hs : s * central lam obs f f = central lam obs f g)
    (ht : t * central lam (obs ++ [o]) f f = central lam (obs ++ [o]) f g) :
    rss lam (obs ++ [o]) f g t =
      lam * rss lam obs f g s + leaves lam obs f o *
        (g o - (mean lam obs g + s * (f o - mean lam obs f))) ^ 2 := by
  set c := lam * weight lam obs / weight lam (obs ++ [o]) with hc
  have hff : central lam (obs ++ [o]) f f = central lam obs f f * lam +
    (f o - mean lam obs f) * (f o - mean lam (obs ++ [o]) f) := central_concat hlam.le o
  have hfg : central lam (obs ++ [o]) f g = central lam obs f g * lam +
    (f o - mean lam obs f) * (g o - mean lam (obs ++ [o]) g) := central_concat hlam.le o
  have hgg : central lam (obs ++ [o]) g g = central lam obs g g * lam +
    (g o - mean lam obs g) * (g o - mean lam (obs ++ [o]) g) := central_concat hlam.le o
  rw [sub_mean_concat hlam.le, ← hc] at hff hfg hgg
  set da := f o - mean lam obs f with hda
  set db := g o - mean lam obs g with hdb
  have he : g o - (mean lam obs g + s * da) = db - s * da := by
    rw [hdb]
    ring
  rw [rss_eq, rss_eq, he]
  unfold leaves
  rw [← hc]
  split_ifs with hpos
  · -- both sides times the new spread
    refine mul_right_cancel₀ hpos.ne' ?_
    have hl : (central lam (obs ++ [o]) g g - 2 * t * central lam (obs ++ [o]) f g +
        t ^ 2 * central lam (obs ++ [o]) f f) * central lam (obs ++ [o]) f f =
        central lam (obs ++ [o]) g g * central lam (obs ++ [o]) f f -
          central lam (obs ++ [o]) f g ^ 2 := by
      linear_combination (t * central lam (obs ++ [o]) f f - central lam (obs ++ [o]) f g) * ht
    rw [hl, add_mul, mul_right_comm _ ((db - s * da) ^ 2), mul_assoc c,
      div_mul_cancel₀ _ hpos.ne', hff, hfg, hgg, ← hs]
    ring
  · -- all of `f` is still in one place
    have h0 := le_antisymm (not_lt.1 hpos) (central_self_nonneg hlam.le (obs ++ [o]) f)
    have h1 := mul_nonneg (central_self_nonneg hlam.le obs f) hlam.le
    have hc0 : 0 ≤ c := div_nonneg (mul_nonneg hlam.le (weight_nonneg hlam.le obs))
      (weight_nonneg hlam.le _)
    have h2 : 0 ≤ da * (c * da) := by
      rw [mul_left_comm]
      exact mul_nonneg hc0 (mul_self_nonneg da)
    have hff0 : central lam obs f f = 0 := by
      have h3 : central lam obs f f * lam = 0 := by linarith
      exact (mul_eq_zero.1 h3).resolve_right hlam.ne'
    have hcda : c * da = 0 := by
      have h3 : da * (c * da) = 0 := by linarith
      rcases mul_eq_zero.1 h3 with h3 | h3
      · rw [h3, mul_zero]
      · exact h3
    rw [h0, hff0, central_eq_zero hlam.le h0, central_eq_zero hlam.le hff0, hgg]
    linear_combination (2 * s * db - s ^ 2 * da) * hcda

end

end Regression
