/-
  A pair of drift-only clocks over exact arithmetic (clocksync.rs).

  A receiver that only drifts reads `offset + rate * T` at the true time `T`. A pair of such
  clocks trained by readings of common instants stays on the line that carries one reading to the
  other: its means lie on it, its slope is that of the line, its residuals are zero. So the gate
  never fires, and what the pair converts is exact.
-/
import Mlatd.State.Convert
import Mlatd.Sample

namespace Mlatd

/-! ## Drift-only clocks -/

/-- A clock that only drifts. -/
structure Clock where
  offset : ℝ
  rate : ℝ
  rate_pos : 0 < rate

namespace Clock

/-- The reading at the true time `T`. -/
def read (c : Clock) (T : ℝ) : ℝ := c.offset + c.rate * T

/-- The slope between two clocks. -/
noncomputable def slope (a b : Clock) : ℝ := b.rate / a.rate

/-- What `b` reads when `a` reads `x`. -/
noncomputable def carry (a b : Clock) (x : ℝ) : ℝ := b.offset + a.slope b * (x - a.offset)

theorem carry_read (a b : Clock) (T : ℝ) : a.carry b (a.read T) = b.read T := by
  have h := a.rate_pos.ne'
  unfold carry slope read
  field_simp
  ring

theorem carry_add (a b : Clock) (x d : ℝ) :
    a.carry b (x + d) = a.carry b x + a.slope b * d := by
  unfold carry
  ring

end Clock

/-! ## The literals of the gate -/

theorem lambda_real : (lambda : ℝ) = 0.9967 := rfl

theorem gateFloorS_pos : 0 < (gateFloorS : ℝ) := by
  show (0 : ℝ) < 1e-6
  norm_num

theorem maxPredSigmaS_nonneg : 0 ≤ (maxPredSigmaS : ℝ) := by
  show (0 : ℝ) ≤ 2e-6
  norm_num

/-! ## A trained pair -/

namespace PairModel

/-- The pair's regression is the line between the two clocks. -/
structure OnLine (a b : Clock) (m : PairModel ℝ) : Prop where
  mean : m.mb = a.carry b m.ma
  slope : m.cab = a.slope b * m.caa
  msq : m.msq = 0

/-- A pair trained by the readings of both clocks at the instants `Ts`, oldest first. -/
noncomputable def train (a b : Clock) (Ts : List ℝ) : PairModel ℝ :=
  Ts.foldl (fun m T => (m.push (a.read T) (b.read T)).1) default

theorem train_concat (a b : Clock) (Ts : List ℝ) (T : ℝ) :
    train a b (Ts ++ [T]) = ((train a b Ts).push (a.read T) (b.read T)).1 :=
  List.foldl_append

theorem not_usable_default : (default : PairModel ℝ).usable = false := by
  unfold usable
  have h : ¬ (minWeight : ℝ) ≤ (default : PairModel ℝ).w := by
    show ¬ (8.0 : ℝ) ≤ 0.0
    norm_num
  simp [h]

/-- A usable pair has some spread in its from-clock. -/
theorem caa_pos {m : PairModel ℝ} (h : m.usable = true) : 0 < m.caa := by
  unfold usable at h
  simp only [Bool.and_eq_true, decide_eq_true_eq] at h
  have h1 : (0 : ℝ) < (5.0 / 4.0) * (5.0 / 4.0) := by norm_num
  have h2 : (5.0 / 4.0) * (5.0 / 4.0) ≤ m.caa / max m.w 1.0 := h.2
  have h3 : (0 : ℝ) < max m.w 1.0 := lt_max_of_lt_right (by norm_num)
  have h4 := mul_pos (h1.trans_le h2) h3
  rwa [div_mul_cancel₀ _ h3.ne'] at h4

theorem beta_eq {m : PairModel ℝ} (h : 0 < m.caa) : m.beta = m.cab / m.caa := by
  unfold beta
  have h0 : (0.0 : ℝ) < m.caa := by
    rw [show (0.0 : ℝ) = 0 by norm_num]
    exact h
  exact if_pos h0

variable {a b : Clock} {m : PairModel ℝ}

/-- A usable pair on the line predicts along it. -/
theorem OnLine.predict (h : OnLine a b m) (hu : m.usable = true) (x : ℝ) :
    m.predictUnchecked x = (a.carry b x, 0) := by
  have hc := caa_pos hu
  have hb : m.beta = a.slope b := by
    rw [beta_eq hc, h.slope, mul_div_cancel_right₀ _ hc.ne']
  have h1 : m.mb + m.beta * (x - m.ma) = a.carry b x := by
    rw [hb, h.mean, ← Clock.carry_add, add_sub_cancel]
  have h2 : Real.sqrt m.msq = 0 := by rw [h.msq, Real.sqrt_zero]
  unfold predictUnchecked
  refine Prod.ext h1 ?_
  show Real.sqrt m.msq * _ = 0
  rw [h2, zero_mul]

/-- A reading of the line keeps the model on it. -/
theorem OnLine.ingest (h : OnLine a b m) (T : ℝ) :
    OnLine a b (m.ingest (a.read T) (b.read T)) := by
  set k : ℝ := 1.0 / (m.w * lambda + 1.0) with hk
  set d : ℝ := a.read T - m.ma with hd
  -- both means move by the same fraction of the way to the reading
  have hdb : b.read T - m.mb = a.slope b * d := by
    rw [h.mean, ← Clock.carry_read a b T, show a.read T = m.ma + d by rw [hd]; ring,
      Clock.carry_add]
    ring
  have hma : (m.ingest (a.read T) (b.read T)).ma = m.ma + k * d := rfl
  have hmb : (m.ingest (a.read T) (b.read T)).mb = m.mb + k * (b.read T - m.mb) := rfl
  have hcaa : (m.ingest (a.read T) (b.read T)).caa =
      m.caa * lambda + d * (a.read T - (m.ma + k * d)) := rfl
  have hcab : (m.ingest (a.read T) (b.read T)).cab =
      m.cab * lambda + d * (b.read T - (m.mb + k * (b.read T - m.mb))) := rfl
  clear_value k
  constructor
  · rw [hma, hmb, hdb, h.mean, Clock.carry_add]
    ring
  · rw [hcaa, hcab, h.slope]
    have h1 : b.read T - (m.mb + k * (b.read T - m.mb)) = a.slope b * (d - k * d) := by
      rw [← sub_sub, hdb]
      ring
    rw [h1, show a.read T - (m.ma + k * d) = d - k * d by rw [hd]; ring]
    ring
  · exact h.msq

/-- The first reading puts the model on the line. -/
theorem ingest_default (a b : Clock) (T : ℝ) :
    OnLine a b ((default : PairModel ℝ).ingest (a.read T) (b.read T)) := by
  have hk : (1.0 : ℝ) / (0.0 * lambda + 1.0) = 1 := by
    rw [lambda_real]
    norm_num
  have hma : ((default : PairModel ℝ).ingest (a.read T) (b.read T)).ma = a.read T := by
    show (0.0 : ℝ) + 1.0 / (0.0 * lambda + 1.0) * (a.read T - 0.0) = a.read T
    rw [hk]
    norm_num
  have hmb : ((default : PairModel ℝ).ingest (a.read T) (b.read T)).mb = b.read T := by
    show (0.0 : ℝ) + 1.0 / (0.0 * lambda + 1.0) * (b.read T - 0.0) = b.read T
    rw [hk]
    norm_num
  constructor
  · rw [hma, hmb, Clock.carry_read]
  · have h1 : ((default : PairModel ℝ).ingest (a.read T) (b.read T)).caa = 0 := by
      show (0.0 : ℝ) * lambda + (a.read T - 0.0) *
        (a.read T - ((default : PairModel ℝ).ingest (a.read T) (b.read T)).ma) = 0
      rw [hma]
      norm_num
    have h2 : ((default : PairModel ℝ).ingest (a.read T) (b.read T)).cab = 0 := by
      show (0.0 : ℝ) * lambda + (a.read T - 0.0) *
        (b.read T - ((default : PairModel ℝ).ingest (a.read T) (b.read T)).mb) = 0
      rw [hmb]
      norm_num
    rw [h1, h2, mul_zero]
  · show (0.0 : ℝ) = 0
    norm_num

/-- Readings of a common instant pass the gate and keep the model on the line. -/
theorem OnLine.push (h : OnLine a b m) (T : ℝ) :
    (m.push (a.read T) (b.read T)).2 = true ∧ OnLine a b (m.push (a.read T) (b.read T)).1 := by
  unfold PairModel.push
  by_cases hu : m.usable = true
  · rw [if_pos hu]
    have hr : m.residual (a.read T) (b.read T) = 0 := by
      unfold residual
      rw [h.predict hu]
      show b.read T - a.carry b (a.read T) = 0
      rw [Clock.carry_read, sub_self]
    have hgate : ¬ m.gate < F64.abs (m.residual (a.read T) (b.read T)) := by
      rw [hr]
      show ¬ max _ (gateFloorS : ℝ) < |(0 : ℝ)|
      rw [abs_zero, not_lt]
      exact le_max_of_le_right gateFloorS_pos.le
    have hmsq : m.msq + (1.0 - lambda) * (m.residual (a.read T) (b.read T) *
        m.residual (a.read T) (b.read T) - m.msq) = 0 := by
      rw [hr, h.msq]
      ring
    dsimp only
    rw [if_neg hgate]
    have hm : OnLine a b { m with
        rejects := 0
        msq := m.msq + (1.0 - lambda) * (m.residual (a.read T) (b.read T) *
          m.residual (a.read T) (b.read T) - m.msq) } := ⟨h.mean, h.slope, hmsq⟩
    exact ⟨rfl, hm.ingest T⟩
  · rw [if_neg hu]
    exact ⟨rfl, h.ingest T⟩

theorem push_default (a b : Clock) (T : ℝ) :
    (push (default : PairModel ℝ) (a.read T) (b.read T)).2 = true ∧
      OnLine a b (push (default : PairModel ℝ) (a.read T) (b.read T)).1 := by
  have hu : ¬ (default : PairModel ℝ).usable = true := by
    rw [not_usable_default]
    exact Bool.false_ne_true
  unfold PairModel.push
  rw [if_neg hu]
  exact ⟨rfl, ingest_default a b T⟩

/-- A trained pair is on the line, or has not been trained yet. -/
theorem train_onLine (a b : Clock) (Ts : List ℝ) :
    train a b Ts = default ∨ OnLine a b (train a b Ts) := by
  induction Ts using List.reverseRecOn with
  | nil => exact Or.inl rfl
  | append_singleton Ts T ih =>
    right
    rw [train_concat]
    rcases ih with h | h
    · rw [h]
      exact (push_default a b T).2
    · exact (h.push T).2

/-- No reading of a common instant is ever refused. -/
theorem push_train (a b : Clock) (Ts : List ℝ) (T : ℝ) :
    ((train a b Ts).push (a.read T) (b.read T)).2 = true := by
  rcases train_onLine a b Ts with h | h
  · rw [h]
    exact (push_default a b T).1
  · exact (h.push T).1

/-- A trained pair converts exactly, when it is usable. -/
theorem convert_train (a b : Clock) (Ts : List ℝ) (x : ℝ) :
    (train a b Ts).convert x =
      if (train a b Ts).usable then some (a.carry b x, 0) else none := by
  unfold convert
  by_cases hu : (train a b Ts).usable = true
  · have hline : OnLine a b (train a b Ts) := by
      refine (train_onLine a b Ts).resolve_left fun h => ?_
      rw [h, not_usable_default] at hu
      cases hu
    rw [if_neg (not_not_intro hu), if_pos hu, hline.predict hu]
    exact if_neg (not_lt.2 maxPredSigmaS_nonneg)
  · rw [if_pos hu, if_neg hu]

end PairModel

end Mlatd
