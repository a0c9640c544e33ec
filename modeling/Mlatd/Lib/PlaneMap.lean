/-
  Linear maps of the plane under iteration, read off their first coordinate.

  By Cayley and Hamilton the first coordinates `x` of an orbit obey `x'' = trace * x' - det * x`, and
  the energy `x' ^ 2 - trace * x' * x + det * x ^ 2` is multiplied by `det` at each step. Where the
  eigenvalues are not real the energy bounds the coordinate, which then dies out with the powers
  of `det` (`sq_fst_iterate_le`). Where the trace outweighs one and the determinant, a coordinate
  that does not shrink in the first step grows by a factor in every one (`abs_fst_iterate_ge`).
-/
import Mathlib.Algebra.Order.Field.Basic
import Mathlib.Tactic.FieldSimp
import Mathlib.Tactic.Linarith
import Mathlib.Tactic.Ring

variable {K : Type*} [Field K]

/-- The map of the matrix with the rows `(a, b)` and `(c, d)`. -/
structure PlaneMap (K : Type*) where
  a : K
  b : K
  c : K
  d : K

namespace PlaneMap

variable (m n : PlaneMap K) (v : K × K)

def apply : K × K := (m.a * v.1 + m.b * v.2, m.c * v.1 + m.d * v.2)

/-- `m` after `n`. -/
def comp : PlaneMap K where
  a := m.a * n.a + m.b * n.c
  b := m.a * n.b + m.b * n.d
  c := m.c * n.a + m.d * n.c
  d := m.c * n.b + m.d * n.d

theorem comp_apply : (m.comp n).apply v = m.apply (n.apply v) := by
  unfold comp apply
  refine Prod.ext ?_ ?_
  · ring
  · ring

def trace : K := m.a + m.d

def det : K := m.a * m.d - m.b * m.c

theorem det_comp : (m.comp n).det = m.det * n.det := by
  unfold comp det
  ring

theorem apply_apply_fst :
    (m.apply (m.apply v)).1 = m.trace * (m.apply v).1 - m.det * v.1 := by
  unfold apply trace det
  ring

/-- What an orbit loses by the factor `det` in each step. -/
def energy : K := (m.apply v).1 ^ 2 - m.trace * (m.apply v).1 * v.1 + m.det * v.1 ^ 2

theorem energy_apply : m.energy (m.apply v) = m.det * m.energy v := by
  unfold energy
  rw [apply_apply_fst]
  ring

theorem energy_iterate (k : ℕ) : m.energy (m.apply^[k] v) = m.det ^ k * m.energy v := by
  induction k with
  | zero => rw [pow_zero, one_mul]; rfl
  | succ k ih =>
    rw [Function.iterate_succ_apply', energy_apply, ih, pow_succ]
    ring

section
variable [LinearOrder K] [IsStrictOrderedRing K] {m v}

/-- Without real eigenvalues the energy bounds the first coordinate. -/
theorem sq_fst_le (h : m.trace ^ 2 < 4 * m.det) (v : K × K) :
    v.1 ^ 2 ≤ 4 * m.energy v / (4 * m.det - m.trace ^ 2) := by
  rw [le_div_iff₀ (by linarith)]
  have hsquare := sq_nonneg (2 * (m.apply v).1 - m.trace * v.1)
  have hsum : 4 * m.energy v = (2 * (m.apply v).1 - m.trace * v.1) ^ 2 +
      v.1 ^ 2 * (4 * m.det - m.trace ^ 2) := by
    unfold energy
    ring
  linarith

/-- And the first coordinate dies out with the powers of the determinant. -/
theorem sq_fst_iterate_le (h : m.trace ^ 2 < 4 * m.det) (v : K × K) (k : ℕ) :
    (m.apply^[k] v).1 ^ 2 ≤ m.det ^ k * (4 * m.energy v / (4 * m.det - m.trace ^ 2)) := by
  refine (sq_fst_le h _).trans (le_of_eq ?_)
  rw [energy_iterate]
  ring

/-- Where the trace outweighs the determinant by `g`, a first coordinate that has not shrunk grows
    by the factor `g` in every step. -/
theorem abs_fst_iterate_ge {g : K} (hg : 1 ≤ g) (htrace : g + |m.det| ≤ |m.trace|)
    (h : |v.1| ≤ |(m.apply v).1|) (k : ℕ) :
    g ^ k * |(m.apply v).1| ≤ |(m.apply^[k + 1] v).1| ∧
      |(m.apply^[k] v).1| ≤ |(m.apply^[k + 1] v).1| := by
  induction k with
  | zero => exact ⟨by rw [pow_zero, one_mul]; rfl, h⟩
  | succ k ih =>
    obtain ⟨ih1, ih2⟩ := ih
    have hnext : (m.apply^[k + 1 + 1] v).1 =
        m.trace * (m.apply^[k + 1] v).1 - m.det * (m.apply^[k] v).1 := by
      rw [Function.iterate_succ_apply', Function.iterate_succ_apply', apply_apply_fst]
    have hgrow : g * |(m.apply^[k + 1] v).1| ≤ |(m.apply^[k + 1 + 1] v).1| := by
      have htri : |m.trace * (m.apply^[k + 1] v).1| - |m.det * (m.apply^[k] v).1| ≤
          |(m.apply^[k + 1 + 1] v).1| := by
        rw [hnext]
        exact abs_sub_abs_le_abs_sub _ _
      have hdet : |m.det * (m.apply^[k] v).1| ≤ |m.det| * |(m.apply^[k + 1] v).1| := by
        rw [abs_mul]
        exact mul_le_mul_of_nonneg_left ih2 (abs_nonneg _)
      have hscale := mul_le_mul_of_nonneg_right htrace (abs_nonneg (m.apply^[k + 1] v).1)
      rw [abs_mul] at htri
      rw [add_mul] at hscale
      linarith
    constructor
    · have h1 := mul_le_mul_of_nonneg_left ih1 (zero_le_one.trans hg)
      calc g ^ (k + 1) * |(m.apply v).1| = g * (g ^ k * |(m.apply v).1|) := by ring
        _ ≤ g * |(m.apply^[k + 1] v).1| := h1
        _ ≤ _ := hgrow
    · have h1 := le_mul_of_one_le_left (abs_nonneg (m.apply^[k + 1] v).1) hg
      exact h1.trans hgrow

end

end PlaneMap
