/-
  The weighted straight line through points: each point `a` of a list has a weight `w a`, an
  abscissa `t a` and an ordinate `y a`.

  The fit is its value `mean` at the weighted centre `mid`, and its `slope`. The centre is not past
  the last abscissa (`mid_le`), the divisors are positive as soon as the weights are and two
  abscissas differ (`total_pos`, `spread_pos`), and points on a line give that line back, whatever
  the weights (`at_of_line`).
-/
import Mathlib.Algebra.BigOperators.Group.List.Basic
import Mathlib.Algebra.BigOperators.Ring.List
import Mathlib.Algebra.Order.BigOperators.Group.List
import Mathlib.Algebra.Order.Field.Basic
import Mathlib.Tactic.FieldSimp
import Mathlib.Tactic.Linarith
import Mathlib.Tactic.Ring

namespace LineFit

variable {α K : Type} [Field K] (w t y : α → K) (l : List α)

/-- The weights together. -/
def total : K := (l.map w).sum

/-- The weighted mean of the abscissas. -/
def mid : K := (l.map fun a => w a * t a).sum / total w l

/-- The weighted spread of the abscissas about their mean. -/
def spread : K := (l.map fun a => w a * ((t a - mid w t l) * (t a - mid w t l))).sum

/-- The value of the fitted line at the centre. -/
def mean : K := (l.map fun a => w a * y a / total w l).sum

def slope : K := (l.map fun a => w a * (t a - mid w t l) * y a / spread w t l).sum

/-- The fitted line at `x`. -/
def fitAt (x : K) : K := mean w y l + slope w t y l * (x - mid w t l)

theorem sum_div_const (f : α → K) (c : K) : (l.map fun a => f a / c).sum = (l.map f).sum / c := by
  simp only [div_eq_mul_inv, List.sum_map_mul_right]

theorem sum_congr {l : List α} {f g : α → K} (h : ∀ a ∈ l, f a = g a) :
    (l.map f).sum = (l.map g).sum := by
  rw [List.map_congr_left h]

/-! ## Points on a line -/

section
variable {w t y l}

/-- The distances to the centre cancel. -/
theorem sum_centred (hw : total w l ≠ 0) : (l.map fun a => w a * (t a - mid w t l)).sum = 0 := by
  have h : (l.map fun a => w a * (t a - mid w t l)).sum =
      (l.map fun a => w a * t a).sum + total w l * (-mid w t l) := by
    rw [total, ← List.sum_map_mul_right, ← List.sum_map_add]
    exact sum_congr fun a _ => by ring
  rw [h, mid]
  field_simp
  ring

/-- The mean of points on a line is the line's value at the centre. -/
theorem mean_of_line (hw : total w l ≠ 0) {c v : K} (hy : ∀ a ∈ l, y a = c + v * t a) :
    mean w y l = c + v * mid w t l := by
  have h : (l.map fun a => w a * y a).sum =
      total w l * c + (l.map fun a => w a * t a).sum * v := by
    rw [total, ← List.sum_map_mul_right, ← List.sum_map_mul_right,
      ← List.sum_map_add]
    exact sum_congr fun a ha => by rw [hy a ha]; ring
  rw [mean, sum_div_const, h, mid]
  field_simp

/-- The slope of points on a line is the line's. -/
theorem slope_of_line (hw : total w l ≠ 0) (hs : spread w t l ≠ 0) {c v : K}
    (hy : ∀ a ∈ l, y a = c + v * t a) : slope w t y l = v := by
  have h : (l.map fun a => w a * (t a - mid w t l) * y a).sum =
      (l.map fun a => w a * (t a - mid w t l)).sum * (c + v * mid w t l) + spread w t l * v := by
    rw [spread, ← List.sum_map_mul_right, ← List.sum_map_mul_right,
      ← List.sum_map_add]
    exact sum_congr fun a ha => by rw [hy a ha]; ring
  rw [slope, sum_div_const, h, sum_centred hw, zero_mul, zero_add]
  field_simp

/-- **Points on a line are fitted by it**, whatever their weights and their number. -/
theorem fitAt_of_line (hw : total w l ≠ 0) (hs : spread w t l ≠ 0) {c v : K}
    (hy : ∀ a ∈ l, y a = c + v * t a) (x : K) : fitAt w t y l x = c + v * x := by
  rw [fitAt, mean_of_line hw hy, slope_of_line hw hs hy]
  ring

end

/-! ## Signs -/

section
variable [LinearOrder K] [IsStrictOrderedRing K] {w t l} (hw : ∀ a ∈ l, 0 < w a)
include hw

theorem total_pos (hl : l ≠ []) : 0 < total w l := by
  refine List.sum_pos _ (fun x hx => ?_) fun h => hl (List.map_eq_nil_iff.1 h)
  obtain ⟨a, ha, rfl⟩ := List.mem_map.1 hx
  exact hw a ha

/-- The centre is not past a bound of the abscissas. -/
theorem mid_le (hl : l ≠ []) {c : K} (ht : ∀ a ∈ l, t a ≤ c) : mid w t l ≤ c := by
  rw [mid, div_le_iff₀ (total_pos hw hl), total, mul_comm, ← List.sum_map_mul_right]
  exact List.sum_le_sum fun a ha => mul_le_mul_of_nonneg_left (ht a ha) (le_of_lt (hw a ha))

/-- Two abscissas that differ leave a spread. -/
theorem spread_pos {a b : α} (ha : a ∈ l) (hb : b ∈ l) (hab : t a ≠ t b) : 0 < spread w t l := by
  have hnonneg : ∀ x ∈ l.map fun a => w a * ((t a - mid w t l) * (t a - mid w t l)), 0 ≤ x := by
    intro x hx
    obtain ⟨c, hc, rfl⟩ := List.mem_map.1 hx
    exact mul_nonneg (le_of_lt (hw c hc)) (mul_self_nonneg _)
  have hterm : ∀ c ∈ l, t c ≠ mid w t l → 0 < spread w t l := by
    intro c hc hne
    have hpos : 0 < w c * ((t c - mid w t l) * (t c - mid w t l)) :=
      mul_pos (hw c hc) (mul_self_pos.2 (sub_ne_zero.2 hne))
    exact hpos.trans_le (List.single_le_sum hnonneg _ (List.mem_map.2 ⟨c, hc, rfl⟩))
  by_cases hmid : t a = mid w t l
  · exact hterm b hb fun h => hab (hmid.trans h.symm)
  · exact hterm a ha hmid

end

end LineFit
