/-
  Power iteration on a symmetric operator of an inner product space, given up when a step is
  shorter than 1, and the scatter operator of a list of vectors.

  The steps of a run from a unit vector never get shorter, so a run of any length is decided by its
  first two.
-/
import Mathlib.Analysis.InnerProductSpace.Projection.Reflection
import Mathlib.Analysis.InnerProductSpace.Symmetric

open RealInnerProductSpace

namespace PowerIteration

variable {E : Type*} [NormedAddCommGroup E] [InnerProductSpace ℝ E]

/-- `T u` taken to length 1; `none` when it is shorter than that. -/
noncomputable def step (T : E →ₗ[ℝ] E) (u : E) : Option E :=
  if ‖T u‖ < 1 then none else some (‖T u‖⁻¹ • T u)

/-- `n` steps. -/
noncomputable def run (T : E →ₗ[ℝ] E) (n : ℕ) (u : E) : Option E :=
  (fun o => o.bind (step T))^[n] (some u)

theorem run_succ (T : E →ₗ[ℝ] E) (n : ℕ) (u : E) : run T (n + 1) u = (run T n u).bind (step T) :=
  Function.iterate_succ_apply' _ _ _

theorem run_succ' (T : E →ₗ[ℝ] E) (n : ℕ) (u : E) :
    run T (n + 1) u = (step T u).bind (run T n) := by
  rw [run, Function.iterate_succ_apply, Option.bind_some]
  cases step T u with
  | none => exact Function.iterate_fixed rfl n
  | some v => rfl

theorem step_eq_some_iff (T : E →ₗ[ℝ] E) (u v : E) :
    step T u = some v ↔ 1 ≤ ‖T u‖ ∧ ‖T u‖⁻¹ • T u = v := by
  rw [step, Option.ite_none_left_eq_some, not_lt, Option.some.injEq]

theorem norm_step {T : E →ₗ[ℝ] E} {u v : E} (h : step T u = some v) : ‖v‖ = 1 := by
  obtain ⟨hlong, rfl⟩ := (step_eq_some_iff T u v).1 h
  have hne : ‖T u‖ ≠ 0 := by linarith
  rw [norm_smul, norm_inv, norm_norm, inv_mul_cancel₀ hne]

/-- The length of the step after. -/
theorem norm_apply_step {T : E →ₗ[ℝ] E} {u v : E} (h : step T u = some v) :
    ‖T v‖ = ‖T (T u)‖ / ‖T u‖ := by
  obtain ⟨-, rfl⟩ := (step_eq_some_iff T u v).1 h
  rw [map_smul, norm_smul, norm_inv, norm_norm, div_eq_inv_mul]

section
variable {T : E →ₗ[ℝ] E} (hT : T.IsSymmetric)
include hT

theorem norm_sq_apply_le (u : E) : ‖T u‖ * ‖T u‖ ≤ ‖u‖ * ‖T (T u)‖ := by
  calc ‖T u‖ * ‖T u‖ = ⟪T u, T u⟫ := (real_inner_self_eq_norm_mul_norm _).symm
    _ = ⟪u, T (T u)⟫ := hT u (T u)
    _ ≤ ‖u‖ * ‖T (T u)‖ := real_inner_le_norm _ _

/-- From a unit vector the steps do not get shorter. -/
theorem norm_apply_le_step {u v : E} (hu : ‖u‖ = 1) (h : step T u = some v) : ‖T u‖ ≤ ‖T v‖ := by
  have hlong := ((step_eq_some_iff T u v).1 h).1
  have hsq := norm_sq_apply_le hT u
  rw [hu, one_mul] at hsq
  rw [norm_apply_step h, le_div_iff₀ (by linarith)]
  exact hsq

/-- A unit vector whose step is long enough never fails. -/
theorem run_of_unit (n : ℕ) {u : E} (hu : ‖u‖ = 1) (hlong : 1 ≤ ‖T u‖) :
    ∃ v, run T n u = some v ∧ ‖v‖ = 1 ∧ 1 ≤ ‖T v‖ := by
  induction n with
  | zero => exact ⟨u, rfl, hu, hlong⟩
  | succ n ih =>
    obtain ⟨v, hrun, hv, hv1⟩ := ih
    have hstep : step T v = some (‖T v‖⁻¹ • T v) := (step_eq_some_iff T v _).2 ⟨hv1, rfl⟩
    refine ⟨‖T v‖⁻¹ • T v, ?_, norm_step hstep, hv1.trans (norm_apply_le_step hT hv hstep)⟩
    rw [run_succ, hrun, Option.bind_some, hstep]

theorem run_succ_isSome_iff (n : ℕ) {u : E} (hu : ‖u‖ = 1) :
    (run T (n + 1) u).isSome ↔ 1 ≤ ‖T u‖ := by
  constructor
  · intro h
    rw [run_succ', Option.isSome_iff_exists] at h
    obtain ⟨v, hv⟩ := h
    obtain ⟨w, hstep, -⟩ := Option.bind_eq_some_iff.1 hv
    exact ((step_eq_some_iff T u w).1 hstep).1
  · intro h
    obtain ⟨v, hv, -⟩ := run_of_unit hT (n + 1) hu h
    rw [hv, Option.isSome_some]

/-- The first two steps decide a run. -/
theorem run_isSome_iff (n : ℕ) (u : E) :
    (run T (n + 2) u).isSome ↔ 1 ≤ ‖T u‖ ∧ ‖T u‖ ≤ ‖T (T u)‖ := by
  rw [run_succ']
  by_cases hlong : 1 ≤ ‖T u‖
  · have hstep : step T u = some (‖T u‖⁻¹ • T u) := (step_eq_some_iff T u _).2 ⟨hlong, rfl⟩
    have hpos : 0 < ‖T u‖ := by linarith
    rw [hstep, Option.bind_some, run_succ_isSome_iff hT n (norm_step hstep),
      norm_apply_step hstep, one_le_div hpos, and_iff_right hlong]
  · have hstep : step T u = none := if_pos (not_le.1 hlong)
    rw [hstep, Option.bind_none]
    exact iff_of_false nofun fun h => hlong h.1

end

/-! ## The scatter operator -/

/-- `u ↦ ∑ ⟪d, u⟫ d` over the vectors `d` of a list. -/
noncomputable def scatter (ds : List E) : E →ₗ[ℝ] E :=
  (ds.map fun d => (innerₛₗ ℝ d).smulRight d).sum

theorem scatter_apply (ds : List E) (u : E) : scatter ds u = (ds.map fun d => ⟪d, u⟫ • d).sum := by
  induction ds with
  | nil => rfl
  | cons d ds ih =>
    rw [List.map_cons, List.sum_cons, ← ih]
    rfl

theorem scatter_isSymmetric (ds : List E) : (scatter ds).IsSymmetric := by
  intro u w
  rw [scatter_apply, scatter_apply]
  induction ds with
  | nil => simp
  | cons d ds ih =>
    simp only [List.map_cons, List.sum_cons, inner_add_left, inner_add_right, ih,
      real_inner_smul_left, real_inner_smul_right, real_inner_comm u d]
    ring

/-- Multiples of `a` scatter along `a`. -/
theorem scatter_line (ts : List ℝ) (a u : E) :
    scatter (ts.map fun t => t • a) u = ((ts.map fun t => t * t).sum * ⟪a, u⟫) • a := by
  rw [scatter_apply]
  induction ts with
  | nil => simp
  | cons t ts ih =>
    have hd : ⟪t • a, u⟫ • t • a = (t * t * ⟪a, u⟫) • a := by
      rw [real_inner_smul_left, smul_smul]
      congr 1
      ring
    rw [List.map_cons, List.map_cons, List.sum_cons, ih, hd, List.map_cons, List.sum_cons,
      ← add_smul, add_mul]

/-- Vectors of a subspace scatter in it. -/
theorem scatter_mem (K : Submodule ℝ E) {ds : List E} (hds : ∀ d ∈ ds, d ∈ K) (u : E) :
    scatter ds u ∈ K := by
  rw [scatter_apply]
  apply list_sum_mem
  intro x hx
  obtain ⟨d, hd, rfl⟩ := List.mem_map.1 hx
  exact K.smul_mem _ (hds d hd)

/-- A run over them ends in it. -/
theorem run_scatter_mem (K : Submodule ℝ E) {ds : List E} (hds : ∀ d ∈ ds, d ∈ K) {n : ℕ} {u v : E}
    (h : run (scatter ds) (n + 1) u = some v) : ‖v‖ = 1 ∧ v ∈ K := by
  rw [run_succ] at h
  obtain ⟨w, -, hstep⟩ := Option.bind_eq_some_iff.1 h
  refine ⟨norm_step hstep, ?_⟩
  rw [← ((step_eq_some_iff _ w v).1 hstep).2]
  exact K.smul_mem _ (scatter_mem K hds w)

/-! ## Reflection across a line -/

/-- `p` reflected across the line through `c` along `u`. -/
noncomputable def reflect (c u p : E) : E := c + (ℝ ∙ u).reflection (p - c)

theorem reflect_of_unit {u : E} (hu : ‖u‖ = 1) (c p : E) :
    reflect c u p = c + (2 * ⟪p - c, u⟫) • u - (p - c) := by
  rw [reflect, Submodule.reflection_singleton_apply, hu, RCLike.ofReal_one, one_pow, div_one,
    real_inner_comm, two_mul, add_smul, two_smul]
  abel

/-- Reflecting twice gives the point back. -/
theorem reflect_reflect (c u p : E) : reflect c u (reflect c u p) = p := by
  rw [reflect, reflect, add_sub_cancel_left, Submodule.reflection_reflection, add_sub_cancel]

/-- The points of the line are as far from the reflection as from the point. -/
theorem dist_reflect (c u p : E) (t : ℝ) :
    dist (reflect c u p) (c + t • u) = dist p (c + t • u) := by
  have hline : (ℝ ∙ u).reflection (t • u) = t • u :=
    Submodule.reflection_mem_subspace_eq_self
      (Submodule.smul_mem _ _ (Submodule.mem_span_singleton_self u))
  calc dist (reflect c u p) (c + t • u)
      = dist ((ℝ ∙ u).reflection (p - c)) ((ℝ ∙ u).reflection (t • u)) := by
        rw [reflect, dist_add_left, hline]
    _ = dist (p - c) (t • u) := LinearIsometryEquiv.dist_map _ _ _
    _ = dist p (c + t • u) := by rw [dist_eq_norm, dist_eq_norm, sub_sub]

end PowerIteration
