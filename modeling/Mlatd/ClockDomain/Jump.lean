/-
  A clock that jumps (clocksync.rs, push), over exact arithmetic.

  A pair trained by two drift-only clocks stands on their line with nothing left over, so its gate
  is at the floor. Once the clocks are others, by a jump of either or a new rate, the readings off
  the old line by more than the floor are refused one by one, the model kept as it was but for
  the count, until the eighth makes it start over; from there it is trained by the new clocks
  alone (`jump_relearnt`).
-/
import Mlatd.ClockDomain.Scatter

namespace Mlatd

open Regression

namespace PairModel

/-! ## A run of readings -/

/-- A model trained further by the readings of both clocks at the instants `Ts`. -/
noncomputable def retrain (a b : Clock) (m : PairModel ℝ) (Ts : List ℝ) : PairModel ℝ :=
  Ts.foldl (fun m T => (m.push (a.read T) (b.read T)).1) m

/-- What the gate says of each of these readings. -/
noncomputable def verdicts (a b : Clock) : PairModel ℝ → List ℝ → List Bool
  | _, [] => []
  | m, T :: Ts => (m.push (a.read T) (b.read T)).2 ::
      verdicts a b (m.push (a.read T) (b.read T)).1 Ts

theorem retrain_append (a b : Clock) (m : PairModel ℝ) (Ts Us : List ℝ) :
    retrain a b m (Ts ++ Us) = retrain a b (retrain a b m Ts) Us :=
  List.foldl_append

theorem verdicts_append (a b : Clock) (m : PairModel ℝ) (Ts Us : List ℝ) :
    verdicts a b m (Ts ++ Us) = verdicts a b m Ts ++ verdicts a b (retrain a b m Ts) Us := by
  induction Ts generalizing m with
  | nil => rfl
  | cons T Ts ih =>
    rw [List.cons_append, verdicts, verdicts, ih]
    rfl

/-- Readings of the clocks that train a model are all accepted. -/
theorem verdicts_train (a b : Clock) (Ts Us : List ℝ) :
    verdicts a b (train a b Ts) Us = List.replicate Us.length true := by
  induction Us generalizing Ts with
  | nil => rfl
  | cons U Us ih =>
    rw [verdicts, push_train, ← train_concat, ih, List.length_cons, List.replicate_succ]

/-- A model trained by drift-only clocks has refused nothing. -/
theorem train_rejects (a b : Clock) (Ts : List ℝ) : (train a b Ts).rejects = 0 := by
  induction Ts using List.reverseRecOn with
  | nil => rfl
  | append_singleton Ts T ih =>
    have hok := push_train a b Ts T
    rw [train_concat]
    unfold push at hok ⊢
    by_cases hu : (train a b Ts).usable = true
    · simp only [if_pos hu] at hok ⊢
      split at hok
      · cases hok
      · next hgate =>
        rw [if_neg hgate]
        rfl
    · rw [if_neg hu]
      exact ih

/-! ## Refusals -/

section
variable {a b a' b' : Clock} {m : PairModel ℝ}

/-- A reading off the line is refused, and the eighth in a row starts the model over. -/
theorem OnLine.push_off (h : OnLine a b m) (hu : m.usable = true) {T : ℝ} (n : ℕ)
    (hoff : gateFloorS < |b'.read T - a.carry b (a'.read T)|) :
    PairModel.push { m with rejects := n } (a'.read T) (b'.read T) =
      (if resetAfterRejects ≤ n + 1 then default else { m with rejects := n + 1 }, false) := by
  have hm : OnLine a b { m with rejects := n } := ⟨h.mean, h.slope, h.msq⟩
  have hresidual : residual { m with rejects := n } (a'.read T) (b'.read T) =
      b'.read T - a.carry b (a'.read T) := by
    unfold residual
    rw [hm.predict hu]
  have hgate : gate { m with rejects := n } = gateFloorS := by
    have hsqrt : (4.0 : ℝ) * Real.sqrt m.msq = 0 := by rw [h.msq, Real.sqrt_zero, mul_zero]
    show max ((4.0 : ℝ) * Real.sqrt m.msq) gateFloorS = gateFloorS
    rw [hsqrt]
    exact max_eq_right gateFloorS_pos.le
  have hfire : gate { m with rejects := n } <
      F64.abs (residual { m with rejects := n } (a'.read T) (b'.read T)) := by
    rw [hgate, hresidual]
    exact hoff
  have husable : usable { m with rejects := n } = true := hu
  unfold PairModel.push
  simp only [if_pos husable, if_pos hfire]

/-- Fewer than eight refusals leave the model as it was, but for their count. -/
theorem OnLine.retrain_off (h : OnLine a b m) (hu : m.usable = true) (n : ℕ) (Us : List ℝ)
    (hn : n + Us.length < resetAfterRejects)
    (hoff : ∀ T ∈ Us, gateFloorS < |b'.read T - a.carry b (a'.read T)|) :
    retrain a' b' { m with rejects := n } Us = { m with rejects := n + Us.length } ∧
      verdicts a' b' { m with rejects := n } Us = List.replicate Us.length false := by
  induction Us generalizing n with
  | nil => exact ⟨rfl, rfl⟩
  | cons U Us ih =>
    rw [List.length_cons] at hn
    have hpush := h.push_off hu n (hoff U List.mem_cons_self)
    rw [if_neg (by omega)] at hpush
    obtain ⟨ih1, ih2⟩ := ih (n + 1) (by omega) fun T hT => hoff T (List.mem_cons_of_mem U hT)
    constructor
    · rw [List.length_cons, Nat.add_comm Us.length, ← Nat.add_assoc, ← ih1]
      show retrain a' b' (PairModel.push { m with rejects := n } (a'.read U) (b'.read U)).1 Us = _
      rw [hpush]
    · rw [verdicts, hpush, ih2, List.length_cons, List.replicate_succ]

/-- Eight refusals start it over. -/
theorem OnLine.retrain_reset (h : OnLine a b m) (hu : m.usable = true) {Us : List ℝ}
    (hn : Us.length = resetAfterRejects)
    (hoff : ∀ T ∈ Us, gateFloorS < |b'.read T - a.carry b (a'.read T)|) :
    retrain a' b' { m with rejects := 0 } Us = default ∧
      verdicts a' b' { m with rejects := 0 } Us = List.replicate Us.length false := by
  obtain ⟨Vs, U, rfl⟩ : ∃ Vs U, Us = Vs ++ [U] :=
    ⟨_, _, (List.dropLast_append_getLast (List.ne_nil_of_length_pos (by rw [hn]; decide))).symm⟩
  have h7 : Vs.length = 7 := by
    rw [List.length_append, List.length_singleton] at hn
    exact Nat.succ.inj hn
  obtain ⟨h1, h2⟩ := h.retrain_off hu 0 Vs (by rw [h7]; decide) fun T hT =>
    hoff T (List.mem_append_left _ hT)
  have hpush := h.push_off hu (0 + Vs.length)
    (hoff U (List.mem_append_right _ List.mem_cons_self))
  rw [if_pos (by rw [h7]; decide)] at hpush
  constructor
  · rw [retrain_append, h1]
    show (PairModel.push { m with rejects := 0 + Vs.length } (a'.read U) (b'.read U)).1 = default
    rw [hpush]
  · rw [verdicts_append, h1, h2, verdicts, hpush, verdicts, List.length_append,
      List.length_singleton, List.replicate_succ']

end

/-! ## After the jump -/

section
variable {a b a' b' : Clock} {Ts Us : List ℝ}

/-- **A jump is learnt anew.** A usable pair of drift-only clocks meets readings of other clocks,
    the first eight of them more than 1 µs off its line. Exactly these are refused. Before the
    eighth the model is as it was, and converts along the old line; from the eighth on it is the
    model that the readings after it alone train, and what it converts is on the new line. -/
theorem jump_relearnt (hu : (train a b Ts).usable = true)
    (hoff : ∀ T ∈ Us.take resetAfterRejects,
      gateFloorS < |b'.read T - a.carry b (a'.read T)|) :
    verdicts a' b' (train a b Ts) Us =
      List.replicate (min resetAfterRejects Us.length) false ++
        List.replicate (Us.length - resetAfterRejects) true ∧
    (Us.length < resetAfterRejects →
      retrain a' b' (train a b Ts) Us = { train a b Ts with rejects := Us.length } ∧
      ∀ x, (retrain a' b' (train a b Ts) Us).convert x = some (a.carry b x, 0)) ∧
    (resetAfterRejects ≤ Us.length →
      retrain a' b' (train a b Ts) Us = train a' b' (Us.drop resetAfterRejects) ∧
      ∀ x c, (retrain a' b' (train a b Ts) Us).convert x = some c → c = (a'.carry b' x, 0)) := by
  have hline : OnLine a b (train a b Ts) := by
    refine (train_onLine a b Ts).resolve_left fun h => ?_
    rw [h, not_usable_default] at hu
    cases hu
  have hzero : train a b Ts = { train a b Ts with rejects := 0 } := by
    rw [← train_rejects a b Ts]
  rcases Nat.lt_or_ge Us.length resetAfterRejects with hlt | hge
  · rw [List.take_of_length_le hlt.le] at hoff
    obtain ⟨h1, h2⟩ := hline.retrain_off hu 0 Us (by omega) hoff
    rw [← hzero, Nat.zero_add] at h1
    rw [← hzero] at h2
    refine ⟨?_, fun _ => ⟨h1, fun x => ?_⟩, fun hge => absurd hlt (not_lt.2 hge)⟩
    · rw [h2, Nat.min_eq_right hlt.le, Nat.sub_eq_zero_of_le hlt.le]
      exact (List.append_nil _).symm
    · rw [h1]
      exact (convert_train a b Ts x).trans (if_pos hu)
  · have hlen : (Us.take resetAfterRejects).length = resetAfterRejects := by
      rw [List.length_take, Nat.min_eq_left hge]
    obtain ⟨h1, h2⟩ := hline.retrain_reset hu hlen hoff
    rw [← hzero] at h1 h2
    rw [hlen] at h2
    have hretrain : retrain a' b' (train a b Ts) Us = train a' b' (Us.drop resetAfterRejects) := by
      conv_lhs => rw [← List.take_append_drop resetAfterRejects Us, retrain_append, h1]
      rfl
    refine ⟨?_, fun hlt => absurd hlt (not_lt.2 hge), fun _ => ⟨hretrain, fun x c hc => ?_⟩⟩
    · have hdefault : (default : PairModel ℝ) = train a' b' [] := rfl
      conv_lhs => rw [← List.take_append_drop resetAfterRejects Us, verdicts_append, h1, h2,
        hdefault, verdicts_train, List.length_drop]
      rw [Nat.min_eq_left hge]
    · rw [hretrain, convert_train] at hc
      split at hc
      · exact (Option.some.inj hc).symm
      · cases hc

end

/-- A clock that is a second ahead. -/
def aheadClock : Clock := { trueClock with offset := 1 }

/-- Nine readings make a pair usable, unless the from-clock is slow. -/
theorem usable_seconds {a b : Clock} (hrate : 1 ≤ a.rate) : (train a b seconds).usable = true := by
  rw [train_eq]
  refine usable_of_seconds hrate ?_
  rw [List.map_map]
  rfl

theorem jump_relearnt_ahead :
    verdicts trueClock aheadClock (train trueClock trueClock seconds) seconds =
      List.replicate 8 false ++ List.replicate 1 true ∧
    (seconds.length < resetAfterRejects →
      retrain trueClock aheadClock (train trueClock trueClock seconds) seconds =
        { train trueClock trueClock seconds with rejects := seconds.length } ∧
      ∀ x, (retrain trueClock aheadClock (train trueClock trueClock seconds) seconds).convert x =
        some (trueClock.carry trueClock x, 0)) ∧
    (resetAfterRejects ≤ seconds.length →
      retrain trueClock aheadClock (train trueClock trueClock seconds) seconds =
        train trueClock aheadClock (seconds.drop resetAfterRejects) ∧
      ∀ x c, (retrain trueClock aheadClock (train trueClock trueClock seconds) seconds).convert x =
        some c → c = (trueClock.carry aheadClock x, 0)) := by
  refine jump_relearnt (usable_seconds le_rfl) fun T _ => ?_
  have hoff : aheadClock.read T - trueClock.carry trueClock (trueClock.read T) = 1 := by
    rw [Clock.carry_read]
    simp [Clock.read, trueClock, aheadClock]
  rw [hoff, abs_one]
  show (1e-6 : ℝ) < 1
  norm_num

end PairModel

end Mlatd
