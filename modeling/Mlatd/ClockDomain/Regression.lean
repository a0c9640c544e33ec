/-
  What a pair model is of the observations it accepted (clocksync.rs), over exact arithmetic.

  `Log` keeps, beside a model, the observations accepted since the last reset and the refusals
  since the last acceptance. `Fits`: the model's sums are the decayed batch sums of the log, so its
  line is the line of least squares through exactly these observations. `push_cases` says all that
  one push can do; `step_fits` carries `Fits` over it.
-/
import Mlatd.ClockDomain.Exact
import Mlatd.Lib.Regression
import Mlatd.Lib.Run

namespace Mlatd

open Regression Run

/-- What the pushes so far left of a pair's observations. -/
structure Log where
  /-- accepted since the last reset, oldest first -/
  accepted : List (ℝ × ℝ)
  /-- refused since the last acceptance or reset -/
  refused : ℕ

namespace Log

def empty : Log := ⟨[], 0⟩

/-- The log after an observation and the verdict on it. -/
def note (l : Log) (o : ℝ × ℝ) (ok : Bool) : Log :=
  if ok then ⟨l.accepted ++ [o], 0⟩
  else if l.refused + 1 = resetAfterRejects then empty
  else { l with refused := l.refused + 1 }

end Log

namespace PairModel

/-- A push, and the log of its verdict. -/
noncomputable def observe (s : PairModel ℝ × Log) (o : ℝ × ℝ) : PairModel ℝ × Log :=
  ((s.1.push o.1 o.2).1, s.2.note o (s.1.push o.1 o.2).2)

/-- A default model after the pushes of `obs`, and its log. -/
noncomputable def observed (obs : List (ℝ × ℝ)) : PairModel ℝ × Log :=
  exec observe (default, Log.empty) obs

/-- The squared residuals of the observations `acc` about the model's own line, decayed. -/
noncomputable def residuals (m : PairModel ℝ) (acc : List (ℝ × ℝ)) : ℝ :=
  wsum lambda acc fun o => (o.2 - (m.predictUnchecked o.1).1) ^ 2

/-! ## The sums -/

/-- The model's sums are the batch sums of `acc`. -/
structure Sums (m : PairModel ℝ) (acc : List (ℝ × ℝ)) : Prop where
  w : m.w = weight lambda acc
  ma : m.ma = mean lambda acc Prod.fst
  mb : m.mb = mean lambda acc Prod.snd
  caa : m.caa = central lambda acc Prod.fst Prod.fst
  cab : m.cab = central lambda acc Prod.fst Prod.snd

theorem lambda_pos : 0 < (lambda : ℝ) := by
  rw [lambda_real]
  norm_num

theorem one_real : (1.0 : ℝ) = 1 := by norm_num

section
variable {m : PairModel ℝ} {acc : List (ℝ × ℝ)}

theorem sums_default : Sums default [] := by
  have h0 : (0.0 : ℝ) = 0 := by norm_num
  constructor
  · exact h0
  · exact h0.trans (div_zero _).symm
  · exact h0.trans (div_zero _).symm
  · exact h0
  · exact h0

/-- An accepted observation moves the sums as it moves the batch sums. -/
theorem Sums.ingest (h : m.Sums acc) (o : ℝ × ℝ) : (m.ingest o.1 o.2).Sums (acc ++ [o]) := by
  have hw : (m.ingest o.1 o.2).w = weight lambda (acc ++ [o]) := by
    rw [weight_concat, ← h.w, ← one_real]
    rfl
  have hma : (m.ingest o.1 o.2).ma = mean lambda (acc ++ [o]) Prod.fst := by
    rw [mean_concat lambda_pos.le, ← hw, ← h.ma, ← one_real]
    rfl
  have hmb : (m.ingest o.1 o.2).mb = mean lambda (acc ++ [o]) Prod.snd := by
    rw [mean_concat lambda_pos.le, ← hw, ← h.mb, ← one_real]
    rfl
  constructor
  · exact hw
  · exact hma
  · exact hmb
  · rw [central_concat lambda_pos.le, ← hma, ← h.ma, ← h.caa]
    rfl
  · rw [central_concat lambda_pos.le, ← hmb, ← h.ma, ← h.cab]
    rfl

theorem Sums.caa_nonneg (h : m.Sums acc) : 0 ≤ m.caa := by
  rw [h.caa]
  exact central_self_nonneg lambda_pos.le acc Prod.fst

/-- The slope solves the normal equation. -/
theorem Sums.beta (h : m.Sums acc) : m.beta * m.caa = m.cab := by
  rcases h.caa_nonneg.eq_or_lt with hc | hc
  · have h0 : m.cab = 0 := by
      rw [h.cab]
      exact central_eq_zero lambda_pos.le (h.caa.symm.trans hc.symm)
    rw [← hc, h0, mul_zero]
  · rw [beta_eq hc, div_mul_cancel₀ _ hc.ne']

theorem Sums.normal (h : m.Sums acc) :
    m.beta * central lambda acc Prod.fst Prod.fst = central lambda acc Prod.fst Prod.snd := by
  rw [← h.caa, ← h.cab]
  exact h.beta

theorem Sums.residuals_eq (h : m.Sums acc) :
    m.residuals acc = rss lambda acc Prod.fst Prod.snd m.beta := by
  unfold residuals rss
  rw [← h.ma, ← h.mb]
  rfl

/-- The model's line is the line of least squares. -/
structure LeastSquares (m : PairModel ℝ) (acc : List (ℝ × ℝ)) : Prop where
  le : ∀ p q, m.residuals acc ≤ wsum lambda acc fun o => (o.2 - (p + q * o.1)) ^ 2
  unique : 0 < m.caa → ∀ p q,
    (wsum lambda acc fun o => (o.2 - (p + q * o.1)) ^ 2) ≤ m.residuals acc →
      ∀ x, (m.predictUnchecked x).1 = p + q * x

theorem Sums.leastSquares (h : m.Sums acc) : m.LeastSquares acc := by
  constructor
  · intro p q
    rw [h.residuals_eq]
    exact rss_le lambda_pos.le h.normal p q
  · intro hc p q hle x
    rw [h.residuals_eq] at hle
    rw [h.caa] at hc
    obtain ⟨rfl, rfl⟩ := line_unique lambda_pos.le h.normal hc hle
    show m.mb + m.beta * (x - m.ma) = _
    rw [h.ma, h.mb]
    ring

end

/-! ## One push -/

/-- The model that an observation it has passed the gate with is taken into. -/
noncomputable def passed (m : PairModel ℝ) (o : ℝ × ℝ) : PairModel ℝ :=
  if m.usable then
    { m with
      rejects := 0
      msq := m.msq + (1.0 - lambda) *
        (m.residual o.1 o.2 * m.residual o.1 o.2 - m.msq) }
  else m

theorem Sums.passed {m : PairModel ℝ} {acc : List (ℝ × ℝ)} (h : m.Sums acc) (o : ℝ × ℝ) :
    (m.passed o).Sums acc := by
  unfold PairModel.passed
  split
  · exact ⟨h.w, h.ma, h.mb, h.caa, h.cab⟩
  · exact h

/-- The gate is there and refuses the observation. -/
def Gated (m : PairModel ℝ) (o : ℝ × ℝ) : Prop :=
  m.usable = true ∧ m.gate < |m.residual o.1 o.2|

theorem push_cases (m : PairModel ℝ) (o : ℝ × ℝ) :
    (¬ m.Gated o ∧ m.push o.1 o.2 = ((m.passed o).ingest o.1 o.2, true)) ∨
    (m.Gated o ∧ m.rejects + 1 < 8 ∧
      m.push o.1 o.2 = ({ m with rejects := m.rejects + 1 }, false)) ∨
    (m.Gated o ∧ 8 ≤ m.rejects + 1 ∧ m.push o.1 o.2 = (default, false)) := by
  unfold push passed Gated
  by_cases hu : m.usable = true
  · by_cases hg : m.gate < |m.residual o.1 o.2|
    · right
      by_cases hr : 8 ≤ m.rejects + 1
      · exact Or.inr ⟨⟨hu, hg⟩, hr, by
          rw [if_pos hu]
          exact (if_pos hg).trans (congrArg (·, false) (if_pos hr))⟩
      · exact Or.inl ⟨⟨hu, hg⟩, not_le.1 hr, by
          rw [if_pos hu]
          exact (if_pos hg).trans (congrArg (·, false) (if_neg hr))⟩
    · refine Or.inl ⟨fun h => hg h.2, ?_⟩
      rw [if_pos hu, if_pos hu]
      exact if_neg hg
  · refine Or.inl ⟨fun h => hu h.1, ?_⟩
    rw [if_neg hu, if_neg hu]

/-! ## Every run of pushes -/

/-- The model is what the log says: its sums are those of the accepted observations, its counters
    those of the verdicts. -/
structure Fits (m : PairModel ℝ) (l : Log) : Prop where
  sums : m.Sums l.accepted
  rejects : m.rejects = l.refused
  nTotal : m.nTotal = l.accepted.length
  /-- only a usable model refuses -/
  usable : 0 < l.refused → m.usable = true
  refused_lt : l.refused < resetAfterRejects

theorem fits_default : Fits default Log.empty :=
  ⟨sums_default, rfl, rfl, fun h => absurd h (lt_irrefl 0), by decide⟩

section
variable {m : PairModel ℝ} {l : Log}

theorem Fits.passed_rejects (h : m.Fits l) (o : ℝ × ℝ) : (m.passed o).rejects = 0 := by
  unfold PairModel.passed
  split
  · rfl
  · next hu =>
    rw [h.rejects]
    exact Nat.eq_zero_of_not_pos fun h0 => hu (h.usable h0)

theorem passed_nTotal (m : PairModel ℝ) (o : ℝ × ℝ) : (m.passed o).nTotal = m.nTotal := by
  unfold passed
  split <;> rfl

theorem step_fits (h : m.Fits l) (o : ℝ × ℝ) :
    Fits (observe (m, l) o).1 (observe (m, l) o).2 := by
  unfold observe Log.note
  rcases push_cases m o with ⟨-, hp⟩ | ⟨hg, hr, hp⟩ | ⟨hg, hr, hp⟩
  · simp only [hp, if_true]
    constructor
    · exact (h.sums.passed o).ingest o
    · exact h.passed_rejects o
    · rw [List.length_append, ← h.nTotal, ← passed_nTotal m o]
      rfl
    · intro h0
      exact absurd h0 (lt_irrefl 0)
    · show 0 < 8
      omega
  · rw [h.rejects] at hr
    have hne : ¬ l.refused + 1 = resetAfterRejects := hr.ne
    simp only [hp, Bool.false_eq_true, if_false, hne]
    constructor
    · exact ⟨h.sums.w, h.sums.ma, h.sums.mb, h.sums.caa, h.sums.cab⟩
    · exact congrArg (· + 1) h.rejects
    · exact h.nTotal
    · intro _
      exact hg.1
    · exact hr
  · have hlt : l.refused < 8 := h.refused_lt
    rw [h.rejects] at hr
    have heq : l.refused + 1 = resetAfterRejects := le_antisymm hlt hr
    simp only [hp, Bool.false_eq_true, if_false, heq, if_true]
    exact fits_default

end

theorem observed_fits (obs : List (ℝ × ℝ)) : (observed obs).1.Fits (observed obs).2 :=
  invariant (I := fun s : PairModel ℝ × Log => Fits s.1 s.2) (fun _ o h => step_fits h o)
    fits_default obs

/-! ## Refusals and resets -/

section
variable {m : PairModel ℝ} {l : Log}

theorem ingest_ne_default (h : m.Sums l.accepted) (o : ℝ × ℝ) : m.ingest o.1 o.2 ≠ default := by
  intro h0
  have h1 : (m.ingest o.1 o.2).w = 0.0 := congrArg w h0
  rw [(h.ingest o).w] at h1
  have h2 := weight_concat_pos lambda_pos.le l.accepted o
  rw [h1] at h2
  norm_num at h2

/-- A push ends in the default model exactly on the eighth refusal in a row. -/
theorem push_eq_default_iff (h : m.Fits l) (o : ℝ × ℝ) :
    (m.push o.1 o.2).1 = default ↔ (m.push o.1 o.2).2 = false ∧ l.refused + 1 = 8 := by
  have hlt : l.refused < 8 := h.refused_lt
  rcases push_cases m o with ⟨-, hp⟩ | ⟨-, hr, hp⟩ | ⟨-, hr, hp⟩
  · rw [hp]
    refine iff_of_false (ingest_ne_default (h.sums.passed o) o) ?_
    simp
  · rw [hp]
    rw [h.rejects] at hr
    refine iff_of_false (fun h0 => ?_) (by omega)
    have h1 : m.rejects + 1 = 0 := congrArg PairModel.rejects h0
    omega
  · rw [hp]
    rw [h.rejects] at hr
    exact iff_of_true rfl ⟨rfl, by omega⟩

/-- A refusal that does not reset moves the reject counter and nothing else. -/
theorem push_of_refused (o : ℝ × ℝ) (hf : (m.push o.1 o.2).2 = false)
    (hd : (m.push o.1 o.2).1 ≠ default) :
    (m.push o.1 o.2).1 = { m with rejects := m.rejects + 1 } := by
  rcases push_cases m o with ⟨-, hp⟩ | ⟨-, -, hp⟩ | ⟨-, -, hp⟩
  · rw [hp] at hf
    cases hf
  · rw [hp]
  · rw [hp] at hd
    exact absurd rfl hd

/-- After a reset nothing is left of what came before. -/
theorem observe_of_reset (h : m.Fits l) (o : ℝ × ℝ) (hd : (m.push o.1 o.2).1 = default) :
    observe (m, l) o = (default, Log.empty) := by
  obtain ⟨hf, hr⟩ := (push_eq_default_iff h o).1 hd
  unfold observe Log.note
  dsimp only
  rw [hd, hf]
  exact congrArg (Prod.mk default) (if_pos hr)

theorem push_default_accepts (o : ℝ × ℝ) : (push (default : PairModel ℝ) o.1 o.2).2 = true := by
  rcases push_cases default o with ⟨-, hp⟩ | ⟨hg, -⟩ | ⟨hg, -⟩
  · rw [hp]
  · exact absurd hg.1 (by simp [not_usable_default])
  · exact absurd hg.1 (by simp [not_usable_default])

/-- Of as many pushes as refusals are left before a reset, and one, some push is accepted. -/
theorem exists_accepted (h : m.Fits l) (os : List (ℝ × ℝ)) (hn : 9 - l.refused ≤ os.length) :
    ∃ k o, k < 9 - l.refused ∧ os[k]? = some o ∧
      ((exec observe (m, l) (os.take k)).1.push o.1 o.2).2 = true := by
  have hlt : l.refused < 8 := h.refused_lt
  induction os generalizing m l with
  | nil =>
    rw [List.length_nil] at hn
    omega
  | cons o os ih =>
    rw [List.length_cons] at hn
    by_cases ha : (m.push o.1 o.2).2 = true
    · exact ⟨0, o, by omega, rfl, ha⟩
    · have hf : (m.push o.1 o.2).2 = false := Bool.eq_false_iff.2 ha
      by_cases hr : l.refused + 1 = 8
      · -- this refusal resets, and the next observation meets a default model
        have hd := observe_of_reset h o ((push_eq_default_iff h o).2 ⟨hf, hr⟩)
        cases os with
        | nil =>
          rw [List.length_nil] at hn
          omega
        | cons o' os =>
          refine ⟨1, o', by omega, rfl, ?_⟩
          show ((observe (m, l) o).1.push o'.1 o'.2).2 = true
          rw [hd]
          exact push_default_accepts o'
      · have hl : (observe (m, l) o).2.refused = l.refused + 1 := by
          unfold observe Log.note
          rw [hf, if_neg Bool.false_ne_true]
          exact congrArg Log.refused (if_neg hr)
        have h' := step_fits h o
        obtain ⟨k, o', hk, ho', hacc⟩ := ih h' (by omega) h'.refused_lt
        exact ⟨k + 1, o', by omega, ho', hacc⟩

end

/-- **A pair model is the offline regression of what it accepted**: its sums are the decayed sums
    of the observations accepted since the last reset, its line their line of least squares; a
    refusal moves only the reject counter, or is the eighth in a row and resets; no nine in a row
    are refused; and after a reset the model is that of the later observations alone. -/
theorem regression_of_accepted (obs : List (ℝ × ℝ)) :
    (observed obs).1.Fits (observed obs).2 ∧
    (observed obs).1.LeastSquares (observed obs).2.accepted ∧
    let m := (observed obs).1
    let l := (observed obs).2
    (∀ o : ℝ × ℝ, (m.push o.1 o.2).2 = false → (m.push o.1 o.2).1 ≠ default →
      (m.push o.1 o.2).1 = { m with rejects := m.rejects + 1 }) ∧
    (∀ o : ℝ × ℝ, (m.push o.1 o.2).1 = default ↔
      (m.push o.1 o.2).2 = false ∧ l.refused + 1 = 8) ∧
    (∀ os : List (ℝ × ℝ), 9 ≤ os.length → ∃ k o, k < 9 ∧ os[k]? = some o ∧
      ((observed (obs ++ os.take k)).1.push o.1 o.2).2 = true) ∧
    (∀ o : ℝ × ℝ, (m.push o.1 o.2).1 = default →
      ∀ post, observed (obs ++ o :: post) = observed post) := by
  have h := observed_fits obs
  refine ⟨h, h.sums.leastSquares, fun o => push_of_refused o, push_eq_default_iff h,
    fun os hn => ?_, fun o hd post => ?_⟩
  · obtain ⟨k, o, hk, ho, hacc⟩ := exists_accepted h os (by omega)
    refine ⟨k, o, by omega, ho, ?_⟩
    unfold observed
    rw [exec_append]
    exact hacc
  · unfold observed
    rw [exec_append, exec_cons]
    exact congrArg (fun s => exec observe s post) (observe_of_reset h o hd)

end PairModel

end Mlatd
