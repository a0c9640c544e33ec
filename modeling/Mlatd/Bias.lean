/-
  Bias learning over exact arithmetic (state.rs, solve_cluster): a receiver whose raw residual is
  the same in every solve.

  A solve observes the receiver at its clock plus the bias learnt so far, so the residual that is
  fed back is what the bias leaves of the raw one. The bias then tends to the raw residual. The
  scatter is taken between that corrected residual and the bias once more, so it tends to the
  size of the raw residual instead of zero: `settles_iff` says for which residuals and records the
  receiver ends up below the quarantine line, for the update of a scored receiver and for that of
  a benched one.
-/
import Mlatd.Lib.Ema
import Mlatd.Lib.Vec
import Mlatd.State.Cluster

namespace Mlatd

namespace RxBias

/-- A record after a residual is learnt. -/
noncomputable def learn (withMad : Bool) (r : ℝ) (q : RxBias ℝ) : RxBias ℝ :=
  let k : ℝ := if q.n < 50 then 0.10 else 0.02
  let biasS := q.biasS + k * r
  { biasS := biasS
    madS := if withMad then q.madS + k * (F64.abs (r - biasS) - q.madS) else q.madS
    n := q.n + 1 }

/-- A benched receiver's record after a fix that leaves the residual `r`. -/
noncomputable def train (r : ℝ) (q : RxBias ℝ) : RxBias ℝ :=
  let biasS := q.biasS + 0.02 * r
  { q with biasS := biasS, madS := q.madS + 0.02 * (F64.abs (r - biasS) - q.madS) }

/-- The bias and the scatter. -/
def pair (q : RxBias ℝ) : ℝ × ℝ := (q.biasS, q.madS)

/-- The gain of a record's next update. -/
noncomputable def gain (q : RxBias ℝ) : ℝ := if q.n < 50 then 0.10 else 0.02

theorem learn_pair (B : ℝ) (q : RxBias ℝ) :
    (q.learn true (B - q.biasS)).pair = Ema.next q.gain B q.pair := rfl

theorem train_pair (B : ℝ) (q : RxBias ℝ) :
    (q.train (B - q.biasS)).pair = Ema.next 0.02 B q.pair := rfl

end RxBias

namespace State

open Filter Topology

/-! ## The updates, slot by slot -/

theorem bias_modify {s s' : State ℝ} {rx : ℕ} {f : RxBias ℝ → RxBias ℝ}
    (h : s'.rxBias = s.rxBias.modify rx f) (hrx : rx < s.rxBias.length) (i : ℕ) :
    s'.bias i = if i = rx then f (s.bias i) else s.bias i := by
  unfold bias
  rw [h, List.getD_eq_getElem?_getD, List.getElem?_modify_ite, List.getD_eq_getElem?_getD]
  split
  · next hi => rw [hi, List.getElem?_eq_getElem hrx, Option.map_some, Option.getD_some,
      Option.getD_some]
  · rfl

theorem learnOne_bias (withMad : Bool) {s : State ℝ} {o : ℕ × ℝ} (h : o.1 < s.rxBias.length)
    (i : ℕ) : (learnOne withMad s o).bias i =
      if i = o.1 then (s.bias i).learn withMad o.2 else s.bias i :=
  bias_modify rfl h i

theorem trainBenched_bias {s : State ℝ} (tx : Ecef ℝ) (tTx : ℝ) {b : ℕ × ℝ}
    (h : b.1 < s.rxBias.length) (i : ℕ) : (s.trainBenched tx tTx b).bias i =
      if i = b.1 then (s.bias i).train
        (tTx + dist tx (s.receiver b.1).ecef / cMps - (b.2 + (s.bias i).biasS))
      else s.bias i := by
  rw [bias_modify (f := fun q => q.train
    (tTx + dist tx (s.receiver b.1).ecef / cMps - (b.2 + q.biasS))) rfl h]

theorem learnOne_length (withMad : Bool) (s : State ℝ) (o : ℕ × ℝ) :
    (learnOne withMad s o).rxBias.length = s.rxBias.length := List.length_modify _ _ _

/-! ## One raw residual, again and again -/

/-- A solve that scores the receiver, its raw residual being `B`. -/
noncomputable def scored (B : ℝ) (rx : ℕ) (s : State ℝ) : State ℝ :=
  learnOne true s (rx, B - (s.bias rx).biasS)

/-- A fix made without the receiver, whose arrival leaves the raw residual `B`. -/
noncomputable def benched (B : ℝ) (rx : ℕ) (s : State ℝ) (fix : Ecef ℝ × ℝ) : State ℝ :=
  s.trainBenched fix.1 fix.2 (rx, fix.2 + dist fix.1 (s.receiver rx).ecef / cMps - B)

/-- The state after some of the fixes. -/
noncomputable def benchedRun (B : ℝ) (rx : ℕ) (s : State ℝ) (fixes : ℕ → Ecef ℝ × ℝ) :
    ℕ → State ℝ
  | 0 => s
  | n + 1 => benched B rx (benchedRun B rx s fixes n) (fixes n)

/-- The bias finds the raw residual, and the scatter ends below the quarantine line. -/
def Settles (B : ℝ) (b : ℕ → RxBias ℝ) : Prop :=
  Tendsto (fun n => (b n).biasS) atTop (𝓝 B) ∧
    ∃ N, ∀ n, N ≤ n → (b n).madS ≤ quarantineMadS

/-- The raw residual is below the quarantine line; or it is on it, and the bias starts on the side
    of zero, or at the residual with the scatter not above the line. -/
def Settling (B : ℝ) (b : RxBias ℝ) : Prop :=
  |B| < quarantineMadS ∨ |B| = quarantineMadS ∧
    (0 < B * (B - b.biasS) ∨ B = b.biasS ∧ b.madS ≤ quarantineMadS)

theorem quarantineMadS_pos : (0 : ℝ) < quarantineMadS := by
  unfold quarantineMadS
  norm_num

theorem settles_iff_of_observes {B : ℝ} {N : ℕ} {k : ℕ → ℝ} {b : ℕ → RxBias ℝ}
    (h : Ema.Observes B 0.02 N k fun n => (b n).pair) : Settles B b ↔ Settling B (b 0) := by
  have hbias : Tendsto (fun n => (b n).biasS) atTop (𝓝 B) := h.tendsto_avg
  unfold Settles Settling
  rw [and_iff_right hbias]
  exact h.dev_le_iff quarantineMadS_pos

/-! ### A scored receiver -/

theorem scored_bias {B : ℝ} {rx : ℕ} {s : State ℝ} (h : rx < s.rxBias.length) :
    (s.scored B rx).bias rx = (s.bias rx).learn true (B - (s.bias rx).biasS) := by
  unfold scored
  rw [learnOne_bias true h, if_pos rfl]

theorem scored_length (B : ℝ) (rx : ℕ) (s : State ℝ) (n : ℕ) :
    ((scored B rx)^[n] s).rxBias.length = s.rxBias.length := by
  induction n with
  | zero => rfl
  | succ n ih =>
    rw [Function.iterate_succ_apply', ← ih]
    exact learnOne_length _ _ _

theorem scored_n {rx : ℕ} {s : State ℝ} (B : ℝ) (h : rx < s.rxBias.length) (n : ℕ) :
    (((scored B rx)^[n] s).bias rx).n = (s.bias rx).n + n := by
  induction n with
  | zero => rfl
  | succ n ih =>
    rw [Function.iterate_succ_apply', scored_bias (by rw [scored_length]; exact h)]
    show (((scored B rx)^[n] s).bias rx).n + 1 = _
    rw [ih, Nat.add_assoc]

/-- After fifty solves the gain is steady. -/
theorem scored_observes {rx : ℕ} {s : State ℝ} (B : ℝ) (h : rx < s.rxBias.length) :
    Ema.Observes B 0.02 50 (fun n => (((scored B rx)^[n] s).bias rx).gain)
      fun n => (((scored B rx)^[n] s).bias rx).pair where
  step n := by
    rw [Function.iterate_succ_apply', scored_bias (by rw [scored_length]; exact h),
      RxBias.learn_pair]
  pos n := by
    unfold RxBias.gain
    split <;> norm_num
  lt_one n := by
    unfold RxBias.gain
    split <;> norm_num
  steady n hn := by
    unfold RxBias.gain
    rw [scored_n B h, if_neg (by omega)]

/-! ### A benched receiver -/

theorem benched_length (B : ℝ) (rx : ℕ) (s : State ℝ) (fixes : ℕ → Ecef ℝ × ℝ) (n : ℕ) :
    (benchedRun B rx s fixes n).rxBias.length = s.rxBias.length := by
  induction n with
  | zero => rfl
  | succ n ih =>
    rw [← ih]
    exact List.length_modify _ _ _

theorem benched_observes {rx : ℕ} {s : State ℝ} (B : ℝ) (h : rx < s.rxBias.length)
    (fixes : ℕ → Ecef ℝ × ℝ) :
    Ema.Observes B 0.02 0 (fun _ => 0.02) fun n => ((benchedRun B rx s fixes n).bias rx).pair where
  step n := by
    set q := (benchedRun B rx s fixes n).bias rx with hq
    have h1 : (benchedRun B rx s fixes (n + 1)).bias rx = q.train (B - q.biasS) := by
      show (benched B rx (benchedRun B rx s fixes n) (fixes n)).bias rx = _
      unfold benched
      rw [trainBenched_bias _ _ (by rw [benched_length]; exact h), if_pos rfl]
      congr 1
      ring
    rw [h1, RxBias.train_pair]
  pos _ := by norm_num
  lt_one _ := by norm_num
  steady _ _ := rfl

/-- **A stable offset settles** exactly when it is below the quarantine line, or on it from the
    side of zero: for a scored receiver and for a benched one. -/
theorem settles_iff (s : State ℝ) (rx : ℕ) (h : rx < s.rxBias.length) (B : ℝ)
    (fixes : ℕ → Ecef ℝ × ℝ) :
    (Settles B (fun n => ((scored B rx)^[n] s).bias rx) ↔ Settling B (s.bias rx)) ∧
      (Settles B (fun n => (benchedRun B rx s fixes n).bias rx) ↔ Settling B (s.bias rx)) :=
  ⟨settles_iff_of_observes (scored_observes B h),
    settles_iff_of_observes (benched_observes B h fixes)⟩

/-! ## A receiver 600 m off -/

/-- One receiver, with the record of a new one. -/
noncomputable def oneReceiver : State ℝ :=
  { State.new 0 1.0 false false (0.0, 0) 0 with rxBias := [RxBias.default] }

theorem settles_iff_default :
    (Settles 2e-6 (fun n => ((scored 2e-6 0)^[n] oneReceiver).bias 0) ↔
        Settling 2e-6 (oneReceiver.bias 0)) ∧
      (Settles 2e-6 (fun n => (benchedRun 2e-6 0 oneReceiver
        (fun _ => (⟨0.0, 0.0, 0.0⟩, 0.0)) n).bias 0) ↔ Settling 2e-6 (oneReceiver.bias 0)) :=
  settles_iff oneReceiver 0 (Nat.lt_succ_self 0) 2e-6 fun _ => (⟨0.0, 0.0, 0.0⟩, 0.0)

/-- Two microseconds of perfectly stable offset are taken for scatter. -/
theorem stable_offset_quarantined :
    ¬ Settles 2e-6 (fun n => ((scored 2e-6 0)^[n] oneReceiver).bias 0) := by
  have h := (scored_observes (s := oneReceiver) 2e-6 (Nat.lt_succ_self 0)).dev_le_iff
    quarantineMadS_pos
  have hbig : (quarantineMadS : ℝ) < |(2e-6 : ℝ)| := by
    unfold quarantineMadS
    rw [abs_of_pos (by norm_num)]
    norm_num
  rintro ⟨-, hs⟩
  rcases h.1 hs with h1 | ⟨h1, -⟩ <;> linarith

end State

end Mlatd
