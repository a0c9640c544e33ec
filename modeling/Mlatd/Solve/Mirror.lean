/-
  The mirror point (solve.rs, mirror_across_receivers): when it exists, and what it is for receivers
  on a line.

  The power iteration starts from `(1, 1, 1)`. Where the receivers' spread is across that direction
  the first steps are short however wide the spread is, and the code takes them for receivers
  without any.
-/
import Mathlib.Analysis.InnerProductSpace.PiL2
import Mathlib.LinearAlgebra.AffineSpace.FiniteDimensional
import Mathlib.LinearAlgebra.Eigenspace.Basic
import Mlatd.Lib.Exact
import Mlatd.Lib.PowerIteration
import Mlatd.Solve

open RealInnerProductSpace

namespace Mlatd

/-! ## The parts of `mirrorAcrossReceivers` -/

section
variable {F : Type} [F64 F]

def centroid (obs : List (Observation F)) : Ecef F :=
  let n : F := F64.ofNat obs.length
  obs.foldl (fun a o => ⟨a.x + o.rx.x / n, a.y + o.rx.y / n, a.z + o.rx.z / n⟩) ⟨0.0, 0.0, 0.0⟩

/-- The receivers seen from their centroid. -/
def offsets (obs : List (Observation F)) : List (Ecef F) :=
  let c := centroid obs
  obs.map fun o => ⟨o.rx.x - c.x, o.rx.y - c.y, o.rx.z - c.z⟩

/-- An entry of the scatter matrix. -/
def scatterEntry (ds : List (Ecef F)) (f g : Ecef F → F) : F :=
  ds.foldl (fun acc d => acc + f d * g d) 0.0

/-- The scatter matrix applied to `u`. -/
def scatterMul (ds : List (Ecef F)) (u : Ecef F) : Ecef F :=
  let row (f : Ecef F → F) : F :=
    scatterEntry ds f Ecef.x * u.x + scatterEntry ds f Ecef.y * u.y + scatterEntry ds f Ecef.z * u.z
  ⟨row Ecef.x, row Ecef.y, row Ecef.z⟩

/-- One power iteration. -/
def axisStep (ds : List (Ecef F)) (u : Ecef F) : Option (Ecef F) :=
  let v := scatterMul ds u
  let norm := F64.sqrt (v.x * v.x + v.y * v.y + v.z * v.z)
  if norm < 1.0 then none else some ⟨v.x / norm, v.y / norm, v.z / norm⟩

def start : Ecef F := ⟨1.0, 1.0, 1.0⟩

/-- The principal axis that 50 iterations find. -/
def axis (obs : List (Observation F)) : Option (Ecef F) :=
  (fun u => u.bind (axisStep (offsets obs)))^[50] (some start)

/-- `p` on the other side of the line through `c` along `u`. -/
def acrossAxis (c u p : Ecef F) : Ecef F :=
  let d : Ecef F := ⟨p.x - c.x, p.y - c.y, p.z - c.z⟩
  let along := d.x * u.x + d.y * u.y + d.z * u.z
  { x := c.x + 2.0 * along * u.x - d.x
    y := c.y + 2.0 * along * u.y - d.y
    z := c.z + 2.0 * along * u.z - d.z }

/-- The point that is converted back to geodetic. -/
def mirrorPoint (obs : List (Observation F)) (p : Ecef F) : Option (Ecef F) :=
  (axis obs).map fun u => acrossAxis (centroid obs) u p

theorem mirrorAcrossReceivers_eq (obs : List (Observation F)) (p : Geodetic F) :
    mirrorAcrossReceivers obs p =
      (mirrorPoint obs p.toEcef).map fun q => { q.toGeodetic with altM := p.altM } := by
  rw [mirrorPoint, Option.map_map]
  unfold mirrorAcrossReceivers
  dsimp only
  split
  · next h =>
    have hnone : axis obs = none := h
    rw [hnone]
    rfl
  · next u h =>
    have hsome : axis obs = some u := h
    rw [hsome]
    rfl

end

/-! ## The same over vectors -/

noncomputable section

/-- A position as a vector. -/
def vec (e : Ecef ℝ) : EuclideanSpace ℝ (Fin 3) := WithLp.toLp _ ![e.x, e.y, e.z]

theorem vec_injective : Function.Injective vec := by
  intro a b h
  have hx := congrArg (fun v : EuclideanSpace ℝ (Fin 3) => v 0) h
  have hy := congrArg (fun v : EuclideanSpace ℝ (Fin 3) => v 1) h
  have hz := congrArg (fun v : EuclideanSpace ℝ (Fin 3) => v 2) h
  cases a
  cases b
  exact congr (congr (congrArg Ecef.mk hx) hy) hz

theorem vec_ext {v : EuclideanSpace ℝ (Fin 3)} {e : Ecef ℝ} (hx : v 0 = e.x) (hy : v 1 = e.y)
    (hz : v 2 = e.z) : v = vec e := by
  ext i
  fin_cases i
  · exact hx
  · exact hy
  · exact hz

theorem inner_vec (a b : Ecef ℝ) : ⟪vec a, vec b⟫ = a.x * b.x + a.y * b.y + a.z * b.z := by
  rw [PiLp.inner_apply, Fin.sum_univ_three]
  show b.x * a.x + b.y * a.y + b.z * a.z = _
  ring

theorem norm_vec (e : Ecef ℝ) : ‖vec e‖ = √(e.x * e.x + e.y * e.y + e.z * e.z) := by
  rw [← inner_vec, ← norm_eq_sqrt_real_inner]

theorem vec_scatterMul (ds : List (Ecef ℝ)) (u : Ecef ℝ) :
    vec (scatterMul ds u) = PowerIteration.scatter (ds.map vec) (vec u) := by
  have h0 : (0.0 : ℝ) = 0 := by norm_num
  have hentry (f g : Ecef ℝ → ℝ) : scatterEntry ds f g = (ds.map fun d => f d * g d).sum := by
    rw [scatterEntry, h0, List.sum_eq_foldl, List.foldl_map]
  have hrow (f : Ecef ℝ → ℝ) : (ds.map fun d => ⟪vec d, vec u⟫ * f d).sum =
      scatterEntry ds f Ecef.x * u.x + scatterEntry ds f Ecef.y * u.y +
        scatterEntry ds f Ecef.z * u.z := by
    rw [hentry, hentry, hentry]
    clear hentry
    induction ds with
    | nil => simp
    | cons d ds ih =>
      simp only [List.map_cons, List.sum_cons]
      rw [ih, inner_vec]
      ring
  have hcoord (i : Fin 3) : PowerIteration.scatter (ds.map vec) (vec u) i =
      (ds.map fun d => ⟪vec d, vec u⟫ * vec d i).sum := by
    rw [PowerIteration.scatter_apply, List.map_map]
    clear hentry hrow
    induction ds with
    | nil => rfl
    | cons d ds ih =>
      rw [List.map_cons, List.sum_cons, List.map_cons, List.sum_cons, ← ih]
      rfl
  symm
  apply vec_ext
  · exact (hcoord 0).trans (hrow Ecef.x)
  · exact (hcoord 1).trans (hrow Ecef.y)
  · exact (hcoord 2).trans (hrow Ecef.z)

theorem axisStep_vec (ds : List (Ecef ℝ)) (u : Ecef ℝ) :
    (axisStep ds u).map vec =
      PowerIteration.step (PowerIteration.scatter (ds.map vec)) (vec u) := by
  have h1 : (1.0 : ℝ) = 1 := by norm_num
  have hstep : axisStep ds u = if ‖vec (scatterMul ds u)‖ < 1 then none else
      some ⟨(scatterMul ds u).x / ‖vec (scatterMul ds u)‖,
        (scatterMul ds u).y / ‖vec (scatterMul ds u)‖,
        (scatterMul ds u).z / ‖vec (scatterMul ds u)‖⟩ := by
    rw [norm_vec, ← h1]
    rfl
  rw [hstep, PowerIteration.step, ← vec_scatterMul]
  split
  · rfl
  · refine congrArg some (vec_ext ?_ ?_ ?_).symm
    · exact (div_eq_inv_mul _ _).symm
    · exact (div_eq_inv_mul _ _).symm
    · exact (div_eq_inv_mul _ _).symm

/-- The scatter of the receivers about their centroid. -/
def spread (obs : List (Observation ℝ)) :
    EuclideanSpace ℝ (Fin 3) →ₗ[ℝ] EuclideanSpace ℝ (Fin 3) :=
  PowerIteration.scatter ((offsets obs).map vec)

theorem axis_vec (obs : List (Observation ℝ)) :
    (axis obs).map vec = PowerIteration.run (spread obs) 50 (vec start) := by
  have hsemi : Function.Semiconj (Option.map vec) (fun u => u.bind (axisStep (offsets obs)))
      (fun u => u.bind (PowerIteration.step (spread obs))) := by
    intro u
    cases u with
    | none => rfl
    | some u => exact axisStep_vec (offsets obs) u
  exact (hsemi.iterate_right 50).eq (some start)

/-- The centroid is the receivers' mean. -/
theorem vec_centroid (obs : List (Observation ℝ)) :
    vec (centroid obs) = (obs.map fun o => (obs.length : ℝ)⁻¹ • vec o.rx).sum := by
  have hfold (n : ℝ) (os : List (Observation ℝ)) (a : Ecef ℝ) :
      vec (os.foldl (fun a o => ⟨a.x + o.rx.x / n, a.y + o.rx.y / n, a.z + o.rx.z / n⟩) a) =
        vec a + (os.map fun o => n⁻¹ • vec o.rx).sum := by
    induction os generalizing a with
    | nil => simp
    | cons o os ih =>
      have hone : vec ⟨a.x + o.rx.x / n, a.y + o.rx.y / n, a.z + o.rx.z / n⟩ =
          vec a + n⁻¹ • vec o.rx := by
        refine (vec_ext ?_ ?_ ?_).symm
        · exact congrArg (a.x + ·) (div_eq_inv_mul _ _).symm
        · exact congrArg (a.y + ·) (div_eq_inv_mul _ _).symm
        · exact congrArg (a.z + ·) (div_eq_inv_mul _ _).symm
      rw [List.foldl_cons, ih, hone, List.map_cons, List.sum_cons, add_assoc]
  have hzero : vec ⟨0.0, 0.0, 0.0⟩ = 0 := by
    have h0 : (0.0 : ℝ) = 0 := by norm_num
    refine (vec_ext ?_ ?_ ?_).symm
    · exact h0.symm
    · exact h0.symm
    · exact h0.symm
  have h := hfold (F64.ofNat obs.length) obs ⟨0.0, 0.0, 0.0⟩
  rw [hzero, zero_add, F64.Exact.ofNat] at h
  exact h

theorem map_vec_offsets (obs : List (Observation ℝ)) :
    (offsets obs).map vec = obs.map fun o => vec o.rx - vec (centroid obs) := by
  rw [offsets, List.map_map]
  apply List.map_congr_left
  intro o _
  exact (vec_ext rfl rfl rfl).symm

theorem vec_acrossAxis (c u p : Ecef ℝ) (hu : ‖vec u‖ = 1) :
    vec (acrossAxis c u p) = PowerIteration.reflect (vec c) (vec u) (vec p) := by
  have h2 : (2.0 : ℝ) = 2 := by norm_num
  have hsub : vec p - vec c = vec ⟨p.x - c.x, p.y - c.y, p.z - c.z⟩ := vec_ext rfl rfl rfl
  rw [PowerIteration.reflect_of_unit hu, hsub, inner_vec, ← h2]
  symm
  exact vec_ext rfl rfl rfl

theorem dist_vec (a b : Ecef ℝ) : dist a b = Dist.dist (vec a) (vec b) := by
  have hsub : vec a - vec b = vec ⟨a.x - b.x, a.y - b.y, a.z - b.z⟩ := vec_ext rfl rfl rfl
  rw [dist_eq_norm, hsub, norm_vec]
  rfl

/-! ## When the mirror point exists -/

/-- The largest eigenvalue of the scatter is at least 1 m². -/
def HasSpread (obs : List (Observation ℝ)) : Prop :=
  ∃ μ : ℝ, 1 ≤ μ ∧ Module.End.HasEigenvalue (spread obs) μ

/-- The direction `e = (1, 1, 1)` is not across the spread `S` of the receivers: `S e` is no shorter
    than 1, and `S (S e)` no shorter than `S e`. -/
def Aligned (obs : List (Observation ℝ)) : Prop :=
  1 ≤ ‖spread obs (vec start)‖ ∧
    ‖spread obs (vec start)‖ ≤ ‖spread obs (spread obs (vec start))‖

theorem axis_isSome_iff (obs : List (Observation ℝ)) : (axis obs).isSome ↔ Aligned obs := by
  rw [← Option.isSome_map (f := vec), axis_vec]
  exact PowerIteration.run_isSome_iff (PowerIteration.scatter_isSymmetric _) 48 _

theorem mirrorAcrossReceivers_isSome_iff (obs : List (Observation ℝ)) (p : Geodetic ℝ) :
    (mirrorAcrossReceivers obs p).isSome ↔ Aligned obs := by
  rw [mirrorAcrossReceivers_eq, Option.isSome_map, mirrorPoint, Option.isSome_map, axis_isSome_iff]

/-! ## Receivers on a line -/

/-- The receivers' positions. -/
def positions (obs : List (Observation ℝ)) : Set (EuclideanSpace ℝ (Fin 3)) :=
  {x | ∃ o ∈ obs, vec o.rx = x}

/-- The mean of points of a line is on it. -/
theorem centroid_sub_mem (K : Submodule ℝ (EuclideanSpace ℝ (Fin 3))) {obs : List (Observation ℝ)}
    (hne : obs ≠ []) {p0 : EuclideanSpace ℝ (Fin 3)} (h : ∀ o ∈ obs, vec o.rx - p0 ∈ K) :
    vec (centroid obs) - p0 ∈ K := by
  have hsum (n : ℝ) (os : List (Observation ℝ)) (hos : ∀ o ∈ os, vec o.rx - p0 ∈ K) :
      (os.map fun o => n • vec o.rx).sum - (os.length * n) • p0 ∈ K := by
    induction os with
    | nil => simp
    | cons o os ih =>
      rw [List.forall_mem_cons] at hos
      have hsplit : (((o :: os).map fun o => n • vec o.rx).sum -
          (((o :: os).length : ℝ) * n) • p0) = n • (vec o.rx - p0) +
            ((os.map fun o => n • vec o.rx).sum - (os.length * n) • p0) := by
        rw [List.map_cons, List.sum_cons, List.length_cons, Nat.cast_succ, add_mul, one_mul,
          add_smul, smul_sub]
        abel
      rw [hsplit]
      exact K.add_mem (K.smul_mem n hos.1) (ih hos.2)
  have hlen : (obs.length : ℝ) ≠ 0 := by
    rw [Nat.cast_ne_zero]
    exact fun h0 => hne (List.length_eq_zero_iff.1 h0)
  have hmean := hsum (obs.length : ℝ)⁻¹ obs h
  rw [mul_inv_cancel₀ hlen, one_smul, ← vec_centroid] at hmean
  exact hmean

/-- The axis found for receivers on a line is the line's. -/
theorem line_of_collinear {obs : List (Observation ℝ)} (h : Collinear ℝ (positions obs))
    {u : Ecef ℝ} (hu : axis obs = some u) :
    ‖vec u‖ = 1 ∧ ∀ o ∈ obs, ∃ t : ℝ, vec o.rx = vec (centroid obs) + t • vec u := by
  obtain ⟨p0, v, hline⟩ := (collinear_iff_exists_forall_eq_smul_vadd _).1 h
  have hrx : ∀ o ∈ obs, vec o.rx - p0 ∈ ℝ ∙ v := by
    intro o ho
    obtain ⟨r, hr⟩ := hline (vec o.rx) ⟨o, ho, rfl⟩
    rw [hr, vadd_eq_add, add_sub_cancel_right]
    exact Submodule.smul_mem _ r (Submodule.mem_span_singleton_self v)
  have hoff : ∀ o ∈ obs, vec o.rx - vec (centroid obs) ∈ ℝ ∙ v := by
    intro o ho
    have hc := centroid_sub_mem _ (List.ne_nil_of_mem ho) hrx
    have hd := Submodule.sub_mem _ (hrx o ho) hc
    rwa [sub_sub_sub_cancel_right] at hd
  have hds : ∀ d ∈ (offsets obs).map vec, d ∈ ℝ ∙ v := by
    rw [map_vec_offsets]
    exact List.forall_mem_map.2 hoff
  have hrun : PowerIteration.run (spread obs) 50 (vec start) = some (vec u) := by
    rw [← axis_vec, hu, Option.map_some]
  obtain ⟨hnorm, hmem⟩ := PowerIteration.run_scatter_mem _ hds hrun
  refine ⟨hnorm, fun o ho => ?_⟩
  obtain ⟨s, hs⟩ := Submodule.mem_span_singleton.1 hmem
  obtain ⟨r, hr⟩ := Submodule.mem_span_singleton.1 (hoff o ho)
  have hs0 : s ≠ 0 := by
    rintro rfl
    rw [zero_smul] at hs
    rw [← hs, norm_zero] at hnorm
    exact zero_ne_one hnorm
  refine ⟨r / s, ?_⟩
  rw [← hs, smul_smul, div_mul_cancel₀ _ hs0, hr, add_sub_cancel]

/-- `q` is `p` on the other side of a line through every receiver. -/
structure Mirrors (obs : List (Observation ℝ)) (p q : Ecef ℝ) : Prop where
  line : ∃ c u : EuclideanSpace ℝ (Fin 3), ‖u‖ = 1 ∧ (∀ o ∈ obs, ∃ t : ℝ, vec o.rx = c + t • u) ∧
    vec q = PowerIteration.reflect c u (vec p)
  dist : ∀ o ∈ obs, dist q o.rx = dist p o.rx
  twice : mirrorPoint obs q = some p

theorem mirrors_of_collinear {obs : List (Observation ℝ)} (h : Collinear ℝ (positions obs))
    {p q : Ecef ℝ} (hq : mirrorPoint obs p = some q) : Mirrors obs p q := by
  obtain ⟨u, hu, rfl⟩ := Option.map_eq_some_iff.1 hq
  obtain ⟨hnorm, hline⟩ := line_of_collinear h hu
  have hvec (p : Ecef ℝ) := vec_acrossAxis (centroid obs) u p hnorm
  refine ⟨⟨vec (centroid obs), vec u, hnorm, hline, hvec p⟩, ?_, ?_⟩
  · intro o ho
    obtain ⟨t, ht⟩ := hline o ho
    rw [dist_vec, dist_vec, hvec, ht, PowerIteration.dist_reflect]
  · rw [mirrorPoint, hu, Option.map_some]
    congr 1
    apply vec_injective
    rw [hvec, hvec, PowerIteration.reflect_reflect]

/-! ## The receivers the code serves -/

/-- Receivers with spread have a mirror point, and receivers on a line have the right one. -/
def MirrorsFound (obs : List (Observation ℝ)) : Prop :=
  (HasSpread obs → ∀ p, (mirrorAcrossReceivers obs p).isSome) ∧
    (Collinear ℝ (positions obs) → ∀ p q, mirrorPoint obs p = some q → Mirrors obs p q)

theorem mirrorsFound_iff (obs : List (Observation ℝ)) :
    MirrorsFound obs ↔ (HasSpread obs → Aligned obs) := by
  constructor
  · intro h hspread
    exact (mirrorAcrossReceivers_isSome_iff obs default).1 (h.1 hspread default)
  · intro h
    refine ⟨fun hspread p => ?_, fun hline p q hq => mirrors_of_collinear hline hq⟩
    exact (mirrorAcrossReceivers_isSome_iff obs p).2 (h hspread)

/-- A receiver `t` m off the point of the equator at 45° E, in direction `(1, -1, 0)`. -/
def onEquator (t : ℝ) : Observation ℝ := ⟨⟨4510024.0 + t, 4510024.0 - t, 0.0⟩, 0.0, 1e-6⟩

/-- Four of them, 6 km from end to end. -/
def alongEquator : List (Observation ℝ) := [-3000.0, -1000.0, 1000.0, 3000.0].map onEquator

theorem centroid_alongEquator : centroid alongEquator = ⟨4510024.0, 4510024.0, 0.0⟩ := by
  simp only [centroid, alongEquator, onEquator, List.map_cons, List.map_nil, List.foldl_cons,
    List.foldl_nil, List.length_cons, List.length_nil, F64.Exact.hadd, F64.Exact.hdiv,
    F64.Exact.literal, F64.Exact.ofNat]
  norm_num

/-- The direction they lie in. -/
def westward : EuclideanSpace ℝ (Fin 3) := vec ⟨1.0, -1.0, 0.0⟩

theorem spread_alongEquator (u : EuclideanSpace ℝ (Fin 3)) :
    spread alongEquator u = (20000000 * ⟪westward, u⟫) • westward := by
  have hoff (t : ℝ) : vec (onEquator t).rx - vec ⟨4510024.0, 4510024.0, 0.0⟩ = t • westward := by
    ext i
    fin_cases i
    · show (4510024.0 + t) - 4510024.0 = t * 1.0
      norm_num
    · show (4510024.0 - t) - 4510024.0 = t * -1.0
      norm_num
    · show (0.0 : ℝ) - 0.0 = t * 0.0
      norm_num
  have hoffsets : (offsets alongEquator).map vec =
      [-3000.0, -1000.0, 1000.0, 3000.0].map fun t : ℝ => t • westward := by
    rw [map_vec_offsets, centroid_alongEquator, alongEquator, List.map_map]
    exact List.map_congr_left fun t _ => hoff t
  rw [spread, hoffsets, PowerIteration.scatter_line]
  norm_num

/-- Their spread is `4 * 10 ^ 7` m², all of it across the start direction. -/
theorem mirror_of_equator_refused : ¬ ∀ obs : List (Observation ℝ), MirrorsFound obs := by
  intro h
  have hself : ⟪westward, westward⟫ = 2 := by
    rw [westward, inner_vec]
    norm_num
  have hne : westward ≠ 0 := by
    intro h0
    rw [h0, inner_zero_left] at hself
    norm_num at hself
  have heigen : spread alongEquator westward = (40000000 : ℝ) • westward := by
    rw [spread_alongEquator, hself]
    norm_num
  have hspread : HasSpread alongEquator := ⟨40000000, by norm_num,
    Module.End.hasEigenvalue_of_hasEigenvector ⟨Module.End.mem_eigenspace_iff.2 heigen, hne⟩⟩
  have hstart : spread alongEquator (vec start) = 0 := by
    have h0 : ⟪westward, vec start⟫ = 0 := by
      rw [westward, inner_vec]
      norm_num [start]
    rw [spread_alongEquator, h0, mul_zero, zero_smul]
  have haligned := (mirrorAcrossReceivers_isSome_iff alongEquator default).1
    ((h alongEquator).1 hspread default)
  have hlong := haligned.1
  rw [hstart, norm_zero] at hlong
  exact absurd hlong (by norm_num)

end

end Mlatd
