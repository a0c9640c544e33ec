/-
  Positions on a circle cut into zones, each zone into `n` steps.

  A position is `u` zones; `nearest n u` numbers the step nearest to it, counted from position
  zero. Its remainder by `n` is what a fixed number of digits keeps of it, its quotient the zone
  that they lose. Two zone counts `b` and `b + 1` of one circle give the zone back: `zone_index`.
-/
import Mathlib.Algebra.Order.Round
import Mathlib.Tactic.FieldSimp
import Mathlib.Tactic.Linarith
import Mathlib.Tactic.LinearCombination
import Mathlib.Tactic.Positivity
import Mathlib.Tactic.Ring

namespace Grid

variable {K : Type} [Field K] [LinearOrder K] [IsStrictOrderedRing K] [FloorRing K] {n : ℕ}

/-- The step nearest to `u`, a tie upwards. -/
def nearest (n : ℕ) (u : K) : ℤ := round (n * u)

theorem nearest_eq (n : ℕ) (u : K) : nearest n u = ⌊n * u + 1 / 2⌋ := round_eq _

theorem abs_nearest_sub (n : ℕ) (u : K) : |nearest n u - n * u| ≤ 1 / 2 := by
  have h1 := Int.floor_le ((n : K) * u + 1 / 2)
  have h2 := Int.lt_floor_add_one ((n : K) * u + 1 / 2)
  rw [abs_le, nearest_eq]
  constructor <;> linarith

/-- A position on a step is nearest to it. -/
theorem nearest_div (hn : 0 < n) (q : ℤ) : nearest n ((q : K) / n) = q := by
  have h : (n : K) ≠ 0 := by positivity
  rw [nearest_eq, mul_div_cancel₀ _ h, Int.floor_eq_iff]
  constructor <;> linarith

theorem nearest_le {u : K} {q : ℤ} (h : n * u ≤ q) : nearest n u ≤ q := by
  have h1 : nearest n u < q + 1 := by
    rw [nearest_eq, Int.floor_lt]
    push_cast
    linarith
  omega

theorem le_nearest {u : K} {q : ℤ} (h : q ≤ n * u) : q ≤ nearest n u := by
  rw [nearest_eq, Int.le_floor]
  linarith

/-- Rounding within the zone: the nearest step, less the steps of the whole zones before it. -/
theorem floor_fract (n : ℕ) (u : K) :
    ⌊n * Int.fract u + 1 / 2⌋ = nearest n u - n * ⌊u⌋ := by
  rw [nearest_eq, Int.fract, mul_sub, sub_add_eq_add_sub, ← Int.cast_natCast n, ← Int.cast_mul,
    Int.floor_sub_intCast]

/-- It is a step of the zone, or the first of the next one. -/
theorem floor_fract_mem (n : ℕ) (u : K) :
    0 ≤ nearest n u - n * ⌊u⌋ ∧ nearest n u - n * ⌊u⌋ ≤ n := by
  rw [← floor_fract]
  have h0 := Int.fract_nonneg u
  have h1 := (Int.fract_lt_one u).le
  have hn : (0 : K) ≤ n := Nat.cast_nonneg n
  constructor
  · rw [Int.le_floor]
    push_cast
    have := mul_nonneg hn h0
    linarith
  · have h2 : ⌊(n : K) * Int.fract u + 1 / 2⌋ < (n : ℤ) + 1 := by
      rw [Int.floor_lt]
      push_cast
      have := mul_le_mul_of_nonneg_left h1 hn
      linarith
    omega

omit [IsStrictOrderedRing K] in
theorem nearest_emod (n : ℕ) (u : K) :
    (nearest n u - n * ⌊u⌋) % n = nearest n u % n := by
  rw [sub_eq_add_neg, ← mul_neg, Int.add_mul_emod_self_left]

/-! ## Two zone counts -/

/-- The steps nearest to one position, `a` and `b` zones to the circle, differ by rounding. -/
theorem abs_cross_le (n : ℕ) (a b : ℕ) (t : K) :
    2 * |b * nearest n (a * t) - a * nearest n (b * t)| ≤ (a + b : ℤ) := by
  have h1 := abs_nearest_sub n (a * t)
  have h2 := abs_nearest_sub n (b * t)
  have ha : (0 : K) ≤ a := Nat.cast_nonneg a
  have hb : (0 : K) ≤ b := Nat.cast_nonneg b
  have h3 : ((b * nearest n (a * t) - a * nearest n (b * t) : ℤ) : K) =
      b * (nearest n (a * t) - n * (a * t)) - a * (nearest n (b * t) - n * (b * t)) := by
    push_cast
    ring
  have h4 : |((b * nearest n (a * t) - a * nearest n (b * t) : ℤ) : K)| ≤
      b * (1 / 2) + a * (1 / 2) := by
    rw [h3]
    refine (abs_sub _ _).trans (add_le_add ?_ ?_)
    · rw [abs_mul, abs_of_nonneg hb]
      exact mul_le_mul_of_nonneg_left h1 hb
    · rw [abs_mul, abs_of_nonneg ha]
      exact mul_le_mul_of_nonneg_left h2 ha
  have h5 : ((2 * |b * nearest n (a * t) - a * nearest n (b * t)| : ℤ) : K) ≤
      ((a + b : ℤ) : K) := by
    push_cast at h4 ⊢
    linarith
  exact_mod_cast h5

/-- What the remainders say of the zones that they lost. -/
theorem zone_index (hn : 0 < n) {a b p q : ℤ} (h : 2 * |b * p - a * q| < n) :
    ⌊((b * (p % n : ℤ) - a * (q % n : ℤ) : ℤ) : K) / n + 1 / 2⌋ = a * (q / n) - b * (p / n) := by
  have hn' : (0 : K) < n := by exact_mod_cast hn
  have h1 : b * (p % n) - a * (q % n) = (b * p - a * q) + n * (a * (q / n) - b * (p / n)) := by
    rw [Int.emod_def, Int.emod_def]
    ring
  have h2 : (2 * |((b * p - a * q : ℤ) : K)| : K) < n := by exact_mod_cast h
  obtain ⟨h3, h4⟩ := abs_lt.1 ((lt_div_iff₀' two_pos).2 h2)
  rw [h1, Int.cast_add, Int.cast_mul, Int.cast_natCast, add_div, mul_div_cancel_left₀ _ hn'.ne',
    add_right_comm, Int.floor_add_intCast, add_eq_right, Int.floor_eq_zero_iff, Set.mem_Ico]
  have h5 : ((b * p - a * q : ℤ) : K) / n < 1 / 2 := by
    rw [div_lt_iff₀ hn']
    linarith
  have h6 : -(1 / 2) < ((b * p - a * q : ℤ) : K) / n := by
    rw [lt_div_iff₀ hn']
    linarith
  constructor <;> linarith

theorem zone_emod_succ (b p q : ℤ) : ((b + 1) * q - b * p) % (b + 1) = p % (b + 1) := by
  rw [show (b + 1) * q - b * p = p + (b + 1) * (q - p) by ring, Int.add_mul_emod_self_left]

theorem zone_emod (b p q : ℤ) : ((b + 1) * q - b * p) % b = q % b := by
  rw [show (b + 1) * q - b * p = q + b * (q - p) by ring, Int.add_mul_emod_self_left]

end Grid
