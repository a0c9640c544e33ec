/-
  The normal equations and the covariance (solve.rs): Cramer's rule solves them, the inverse it
  gives of `JᵀJ` is symmetric and positive, and the errors reported are roots of positive numbers.
-/
import Mathlib.LinearAlgebra.Matrix.PosDef
import Mathlib.Analysis.Matrix.Order
import Mlatd.Lib.Exact
import Mlatd.Solve.Newton

open Matrix

namespace Mlatd

/-! ## Cramer's rule -/

theorem det3_eq_det (m : Matrix (Fin 3) (Fin 3) ℝ) : det3 m = m.det := by
  rw [det_fin_three]
  show m 0 0 * (m 1 1 * m 2 2 - m 1 2 * m 2 1) - m 0 1 * (m 1 0 * m 2 2 - m 1 2 * m 2 0) +
    m 0 2 * (m 1 0 * m 2 1 - m 1 1 * m 2 0) = _
  ring

theorem solve3_eq (A : Matrix (Fin 3) (Fin 3) ℝ) (b : Fin 3 → ℝ) :
    solve3 A b = if |A.det| < 1e-30 then none else some (A.det⁻¹ • cramer A b) := by
  have hsome : (fun k => det3 (of fun row col => if col = k then b row else A row col) / det3 A) =
      A.det⁻¹ • cramer A b := by
    funext k
    have hcol : (of fun row col => if col = k then b row else A row col) = A.updateCol k b := by
      ext row col
      rw [updateCol_apply, of_apply]
    rw [hcol, det3_eq_det, det3_eq_det, Pi.smul_apply, cramer_apply, smul_eq_mul, div_eq_inv_mul]
  rw [← hsome, ← det3_eq_det]
  rfl

theorem solve3_mulVec {A : Matrix (Fin 3) (Fin 3) ℝ} {b x : Fin 3 → ℝ} (h : solve3 A b = some x) :
    A *ᵥ x = b := by
  rw [solve3_eq, Option.ite_none_left_eq_some] at h
  obtain ⟨hdet, hx⟩ := h
  have hne : A.det ≠ 0 := by
    intro h0
    rw [h0, abs_zero] at hdet
    norm_num at hdet
  rw [← Option.some.inj hx, mulVec_smul, mulVec_cramer, inv_smul_smul₀ hne]

/-- Columns written one after another: each is what was found for it, the others are kept. -/
theorem foldlM_columns (f : Fin 3 → Option (Fin 3 → ℝ)) (ks : List (Fin 3)) (hks : ks.Nodup)
    {out M : Matrix (Fin 3) (Fin 3) ℝ}
    (h : ks.foldlM (fun (out : Matrix (Fin 3) (Fin 3) ℝ) k => (f k).map fun col =>
      of fun r c => if c = k then col r else out r c) out = some M) :
    (∀ k ∈ ks, f k = some (M.col k)) ∧ ∀ k ∉ ks, M.col k = out.col k := by
  induction ks generalizing out with
  | nil => exact ⟨nofun, fun k _ => by rw [Option.some.inj h]⟩
  | cons k ks ih =>
    rw [List.nodup_cons] at hks
    rw [List.foldlM_cons] at h
    obtain ⟨out', hout', hrest⟩ := Option.bind_eq_some_iff.1 h
    obtain ⟨col, hcol, rfl⟩ := Option.map_eq_some_iff.1 hout'
    obtain ⟨hin, hkeep⟩ := ih hks.2 hrest
    have hk : M.col k = col := by
      rw [hkeep k hks.1]
      funext r
      exact if_pos rfl
    refine ⟨List.forall_mem_cons.2 ⟨hk ▸ hcol, hin⟩, fun c hc => ?_⟩
    rw [List.mem_cons, not_or] at hc
    rw [hkeep c hc.2]
    funext r
    exact if_neg hc.1

/-- Each column of the inverse is a solution. -/
theorem invert3_col {A M : Matrix (Fin 3) (Fin 3) ℝ} (h : invert3 A = some M) (k : Fin 3) :
    solve3 A (Pi.single k 1) = some (M.col k) := by
  have hunit : (fun i => if i = k then (1.0 : ℝ) else 0.0) = Pi.single k 1 := by
    have h1 : (1.0 : ℝ) = 1 := by norm_num
    have h0 : (0.0 : ℝ) = 0 := by norm_num
    funext i
    rw [Pi.single_apply, h1, h0]
  rw [← hunit]
  exact (foldlM_columns (fun k => solve3 A fun i => if i = k then 1.0 else 0.0) _
    (List.nodup_finRange 3) h).1 k (List.mem_finRange k)

theorem invert3_mul {A M : Matrix (Fin 3) (Fin 3) ℝ} (h : invert3 A = some M) :
    A * M = 1 ∧ M * A = 1 := by
  have hright : A * M = 1 := by
    ext i k
    have hcol := congrFun (solve3_mulVec (invert3_col h k)) i
    rw [Matrix.one_apply, ← Pi.single_apply, ← hcol]
    rfl
  exact ⟨hright, mul_eq_one_comm.1 hright⟩

/-- A matrix that is not nearly singular is inverted. -/
theorem invert3_eq_some {A : Matrix (Fin 3) (Fin 3) ℝ} (h : 1e-30 ≤ |A.det|) :
    invert3 A = some A⁻¹ := by
  have hsolve (b : Fin 3 → ℝ) : solve3 A b = some (A.det⁻¹ • cramer A b) := by
    rw [solve3_eq, if_neg (not_lt.2 h)]
  obtain ⟨M, hM⟩ : ∃ M, invert3 A = some M := by
    unfold invert3
    simp [List.finRange, hsolve, List.foldlM]
  rw [hM, inv_eq_right_inv (invert3_mul hM).1]

/-! ## The normal matrix -/

/-- The rows as a matrix. -/
def ofRows (rows : List (Fin 3 → ℝ)) : Matrix (Fin rows.length) (Fin 3) ℝ := of rows.get

theorem foldl_gram (rows : List (Fin 3 → ℝ)) (jtj : Matrix (Fin 3) (Fin 3) ℝ) (a b : Fin 3) :
    rows.foldl (fun (jtj : Matrix (Fin 3) (Fin 3) ℝ) ji => of fun a b => jtj a b + ji a * ji b)
      jtj a b = jtj a b + (rows.map fun ji => ji a * ji b).sum := by
  induction rows generalizing jtj with
  | nil => simp
  | cons ji rows ih =>
    rw [List.foldl_cons, ih, of_apply, List.map_cons, List.sum_cons, add_assoc]

theorem gram_eq (rows : List (Fin 3 → ℝ)) : gram rows = (ofRows rows)ᵀ * ofRows rows := by
  have h0 : (0.0 : ℝ) = 0 := by norm_num
  ext a b
  have hsum : ((ofRows rows)ᵀ * ofRows rows) a b = (rows.map fun ji => ji a * ji b).sum := by
    have h := List.sum_ofFn (f := fun i : Fin rows.length => rows.get i a * rows.get i b)
    rw [mul_apply]
    refine h.symm.trans (congrArg List.sum ?_)
    exact List.ofFn_getElem_eq_map rows fun ji => ji a * ji b
  rw [hsum]
  refine (foldl_gram rows _ a b).trans ?_
  show (0.0 : ℝ) + _ = _
  rw [h0, zero_add]

/-- The inverse of a Gram matrix is positive definite. -/
theorem posDef_of_invert3 {n : ℕ} {J : Matrix (Fin n) (Fin 3) ℝ} {M : Matrix (Fin 3) (Fin 3) ℝ}
    (h : invert3 (Jᵀ * J) = some M) : M.PosDef := by
  obtain ⟨hright, hleft⟩ := invert3_mul h
  have hunit : IsUnit (Jᵀ * J) := IsUnit.of_mul_eq_one M hright
  have hgram : (Jᵀ * J).PosSemidef := by
    have hJ := posSemidef_conjTranspose_mul_self J
    rwa [conjTranspose_eq_transpose_of_trivial] at hJ
  have hinv : M = (Jᵀ * J)⁻¹ := (inv_eq_right_inv hright).symm
  rw [hinv]
  exact (hgram.posDef_iff_isUnit.2 hunit).inv

/-! ## The error estimate -/

theorem geomM2_pos {M : Matrix (Fin 3) (Fin 3) ℝ} (h : ∀ i, 0 < M i i) (lat : ℝ) :
    0 < geomM2 M lat := by
  have hlon : (0 : ℝ) < 111320.0 * max (Real.cos (lat * (Real.pi / 180.0))) 0.05 :=
    mul_pos (by norm_num) (lt_max_of_lt_right (by norm_num))
  have hlat : (0 : ℝ) < 111320.0 := by norm_num
  exact add_pos (mul_pos (mul_pos (h 0) hlat) hlat) (mul_pos (mul_pos (h 1) hlon) hlon)

theorem sigma2_nonneg (r : List ℝ) (n : ℕ) : 0 ≤ sigma2 r n := by
  have hsum : 0 ≤ (r.map fun x => x * x).sum := by
    apply List.sum_nonneg
    simp only [List.mem_map, forall_exists_index, and_imp, forall_apply_eq_imp_iff₂]
    exact fun x _ => mul_self_nonneg x
  have hdof : (0 : ℝ) ≤ max (((n : ℤ) : ℝ) - 3.0) 1.0 := le_max_of_le_right (by norm_num)
  rw [sigma2, F64.sum_eq]
  exact div_nonneg hsum hdof

/-- The inverse of the normal matrix of a fit. -/
theorem geomM2_normalMatrix {obs : List (Observation ℝ)} {lat lon altM tTx : ℝ}
    {M : Matrix (Fin 3) (Fin 3) ℝ} (h : invert3 (normalMatrix obs lat lon altM tTx) = some M) :
    0 < geomM2 M lat := by
  rw [normalMatrix, gram_eq] at h
  exact geomM2_pos (fun i => (posDef_of_invert3 h).diag_pos) lat

/-- The roots are taken of the variances as they are: none is negative. -/
theorem estimate_abs (obs : List (Observation ℝ)) (altM : ℝ) (s : Iterate ℝ) (rms : ℝ)
    (finalResid : List ℝ) :
    estimate (fun v => F64.sqrt (F64.abs v)) obs altM s rms finalResid =
      estimate F64.sqrt obs altM s rms finalResid := by
  apply Option.map_congr
  intro cov hcov
  have hgeom := geomM2_normalMatrix hcov
  have habs {v : ℝ} (hv : 0 ≤ v) : F64.sqrt (F64.abs v) = F64.sqrt v :=
    congrArg Real.sqrt (abs_of_nonneg hv)
  beta_reduce
  rw [habs hgeom.le, habs (mul_nonneg (sigma2_nonneg _ _) hgeom.le)]

/-- The errors of a fit are the roots of its variances, as if no absolute value were taken. -/
theorem solve_eq (obs : List (Observation ℝ)) (altM : ℝ) (init : Geodetic ℝ) :
    solve obs altM init = solveRoot F64.sqrt obs altM init := by
  simp only [solve, solveRoot, estimate_abs]

/-- The solver and the covariance: `solve3` solves, `invert3` inverts on both sides, the inverse of
    `JᵀJ` is symmetric with a positive diagonal for any number of rows, and the normal matrix of a
    fit is such a `JᵀJ`, so that no fit differs for the absolute values under its roots. -/
theorem normal_equations :
    (∀ (A : Matrix (Fin 3) (Fin 3) ℝ) (b x : Fin 3 → ℝ), solve3 A b = some x → A *ᵥ x = b) ∧
    (∀ A M : Matrix (Fin 3) (Fin 3) ℝ, invert3 A = some M → A * M = 1 ∧ M * A = 1) ∧
    (∀ (n : ℕ) (J : Matrix (Fin n) (Fin 3) ℝ) (M : Matrix (Fin 3) (Fin 3) ℝ),
      invert3 (Jᵀ * J) = some M → M.IsSymm ∧ (∀ i, 0 < M i i) ∧ ∀ lat, 0 < geomM2 M lat) ∧
    (∀ (obs : List (Observation ℝ)) (lat lon altM tTx : ℝ), normalMatrix obs lat lon altM tTx =
      (ofRows (jacobian obs lat lon altM tTx))ᵀ * ofRows (jacobian obs lat lon altM tTx)) ∧
    ∀ (obs : List (Observation ℝ)) (altM : ℝ) (init : Geodetic ℝ),
      solve obs altM init = solveRoot F64.sqrt obs altM init := by
  refine ⟨fun A b x h => solve3_mulVec h, fun A M h => invert3_mul h, fun n J M h => ?_,
    fun obs lat lon altM tTx => gram_eq _, solve_eq⟩
  have hpos := posDef_of_invert3 h
  have hdiag (i : Fin 3) : 0 < M i i := hpos.diag_pos
  exact ⟨isHermitian_iff_isSymm.1 hpos.isHermitian, hdiag, geomM2_pos hdiag⟩

/-- Four observations: one of each unknown, one of their sum. -/
def fourRows : Matrix (Fin 4) (Fin 3) ℝ := !![1, 0, 0; 0, 1, 0; 0, 0, 1; 1, 1, 1]

theorem normal_equations_four :
    (fourRowsᵀ * fourRows) *ᵥ ((fourRowsᵀ * fourRows)⁻¹ *ᵥ ![1, 0, 0]) = ![1, 0, 0] ∧
      (fourRowsᵀ * fourRows)⁻¹ * (fourRowsᵀ * fourRows) = 1 ∧ (fourRowsᵀ * fourRows)⁻¹.IsSymm ∧
      (∀ i, 0 < (fourRowsᵀ * fourRows)⁻¹ i i) ∧ 0 < geomM2 (fourRowsᵀ * fourRows)⁻¹ 50.0 := by
  have hdet : 1e-30 ≤ |(fourRowsᵀ * fourRows).det| := by
    have h : (fourRowsᵀ * fourRows).det = 4 := by
      rw [det_fin_three]
      simp [fourRows, mul_apply, Fin.sum_univ_four]
      norm_num
    rw [h]
    norm_num
  obtain ⟨hsolve, hinvert, hgram, -⟩ := normal_equations
  have hinv := invert3_eq_some hdet
  obtain ⟨hsymm, hdiag, hgeom⟩ := hgram 4 fourRows _ hinv
  have hcol : solve3 (fourRowsᵀ * fourRows) ![1, 0, 0] =
      some ((fourRowsᵀ * fourRows)⁻¹ *ᵥ ![1, 0, 0]) := by
    rw [solve3_eq, if_neg (not_lt.2 hdet), inv_def, Ring.inverse_eq_inv', cramer_eq_adjugate_mulVec,
      smul_mulVec]
  exact ⟨hsolve _ _ _ hcol, (hinvert _ _ hinv).2, hsymm, hdiag, hgeom 50.0⟩

end Mlatd
