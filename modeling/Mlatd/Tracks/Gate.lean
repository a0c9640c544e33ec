/-
  Which fixes the track gate has seen (state.rs, solve_cluster; solve.rs, solve_robust).

  The gate is chosen by the number of observations that go into the solve, four. The retry of
  `solve_robust` leaves one out of five, and its fix rests on four that no gate was chosen for.
  `gate_holds_iff` says which clusters are safe from it, whatever the inner solver finds.
-/
import Mlatd.Tracks.Publish
import Mlatd.Solve.Lobes
import Mlatd.Sample

namespace Mlatd

variable {F : Type} [F64 F]

namespace State

/-- The attempt that a cluster leads to. -/
def attemptOf (s : State F) (now : Instant) (g : Group F) (localRef : ℕ)
    (cluster : List (Arrival F)) : Option (Attempt F) :=
  let sel := s.selectObs cluster
  if sel.used.length < 4 then none
  else
    let stamped := s.stampCluster localRef sel.used
    (stamped.1.attemptAt now g stamped.2 { sel with used := capUsed sel.used }).filter
      fun a => !a.tooSoon

/-- A fix that the call emits on four observations agrees with the track's prediction, where there
    is one. -/
def GateHolds (env : Env F) (s : State F) (now : Instant) (g : Group F) (localRef : ℕ)
    (cluster : List (Arrival F)) : Prop :=
  ∀ row, .fix row ∈ (s.solveCluster env now g localRef cluster).2 →
    ∀ a sol, (Turn.solve now g localRef cluster).published env s = some (a, sol) →
      sol.residualsS.length = 4 →
        ∀ pred, s.trackPrediction g.icao a.altM (s.scaledNow now) = some pred →
          fourRxConsistent pred sol = true

/-- No cluster of five to leave one out of: where the attempt has five observations of an aircraft
    with a live track, every solution on four that the other gates let through agrees with the
    track. -/
def NoneToLeaveOut (s : State F) (now : Instant) (g : Group F) (localRef : ℕ)
    (cluster : List (Arrival F)) : Prop :=
  ∀ a, s.attemptOf now g localRef cluster = some a → a.used.length = 5 → a.isDf17 = false →
    ∀ pred, s.trackPrediction g.icao a.altM (s.scaledNow now) = some pred →
      ∀ sol : Solution F, sol.residualsS.length = 4 → judge a sol = none →
        fourRxConsistent pred sol = true

section
variable {env : Env F} {s : State F} {now : Instant} {g : Group F} {localRef : ℕ}
  {cluster : List (Arrival F)} {a : Attempt F} {sol : Solution F}

theorem attempted_eq (env : Env F) (s : State F) (now : Instant) (g : Group F) (localRef : ℕ)
    (cluster : List (Arrival F)) : s.attempted env now g localRef cluster =
      (s.attemptOf now g localRef cluster).map fun a => (a, s.solution env a) := by
  unfold attempted attemptOf
  simp only
  split <;> rfl

/-- An attempt of four observations is gated by the prediction, no other is gated. -/
theorem gate_of_attemptOf (h : s.attemptOf now g localRef cluster = some a) :
    a.gate = if a.used.length = 4 then s.trackPrediction g.icao a.altM (s.scaledNow now)
      else none := by
  unfold attemptOf at h
  simp only at h
  split at h
  · cases h
  · obtain ⟨h, -⟩ := Option.filter_eq_some_iff.1 h
    unfold attemptAt at h
    obtain ⟨altFt, -, rfl⟩ := Option.map_eq_some_iff.1 h
    rfl

/-- A solution that stands agrees with the attempt's gate. -/
theorem consistent_of_judge (h : judge a sol = none) {pred : Prediction F}
    (hg : a.gate = some pred) : fourRxConsistent pred sol = true := by
  unfold judge at h
  simp only at h
  split_ifs at h with h1 h2 h3
  rw [hg] at h3
  simpa using h3

/-- A fix on four observations comes of four, or of five with one left out. -/
theorem used_of_solution (hm : env.solve.Measures) (h : s.solution env a = some sol)
    (h4 : sol.residualsS.length = 4) : a.used.length = 4 ∨ a.used.length = 5 := by
  unfold solution at h
  rw [solveRobust_eq] at h
  rcases solveRobustBy_cases env.solve mirrorAcrossReceivers Geodetic.haversineM
    (a.used.map Used.obs) a.altM (s.startPoint a) with ⟨-, -, r, ⟨k, hk, hr⟩, heq⟩ | ⟨-, heq⟩
  · rw [heq] at h
    cases h
    have hk := List.mem_range.1 hk
    rw [hm _ _ _ _ hr, List.length_eraseIdx, if_pos hk, List.length_map] at h4
    omega
  · rw [heq] at h
    have hlen := (lobeTested_of_fullFit h).length hm
    rw [List.length_map] at hlen
    omega

end

/-- A solver that finds `sol` on four observations and nothing else. -/
def onFour (sol : Solution F) : Solver F := fun obs _ _ => if obs.length = 4 then some sol else none

omit [F64 F] in
theorem onFour_measures {sol : Solution F} (h : sol.residualsS.length = 4) :
    (onFour sol).Measures := by
  intro obs altM init s hs
  unfold onFour at hs
  split_ifs at hs with h4
  cases hs
  omega

/-- Of five observations it finds `sol` with one left out. -/
theorem solveRobust_onFour (sol : Solution F) {obs : List (Observation F)} (h5 : obs.length = 5)
    (altM : F) (init : Geodetic F) : solveRobust (onFour sol) obs altM init = some sol := by
  rw [solveRobust_eq]
  have hnone : onFour sol obs altM init = none := if_neg (by omega)
  have hsome : onFour sol (obs.eraseIdx 0) altM init = some sol := by
    refine if_pos ?_
    rw [List.length_eraseIdx, if_pos (by omega)]
    omega
  have hfull : fullFit (onFour sol) mirrorAcrossReceivers Geodetic.haversineM obs altM init =
      none := by
    unfold fullFit
    rw [hnone]
    rfl
  rcases solveRobustBy_cases (onFour sol) mirrorAcrossReceivers Geodetic.haversineM obs altM init
    with ⟨-, -, r, ⟨k, -, hr⟩, heq⟩ | ⟨hn, -⟩
  · unfold onFour at hr
    split_ifs at hr
    rw [heq, hr]
  · refine absurd ⟨by omega, fun f hf => ?_, 0, by omega, sol, hsome, fun f hf => ?_⟩ hn
    · rw [hfull] at hf
      cases hf
    · rw [hfull] at hf
      cases hf

/-- **Which clusters the track gate covers**, whatever the inner solver finds: a fix on four
    observations agrees with the track exactly where there are not five to leave one out of. -/
theorem gate_holds_iff (env : Env F) (s : State F) (now : Instant) (g : Group F) (localRef : ℕ)
    (cluster : List (Arrival F)) :
    (∀ solve : Solver F, solve.Measures →
      s.GateHolds { env with solve := solve } now g localRef cluster) ↔
      s.NoneToLeaveOut now g localRef cluster := by
  constructor
  · intro h a ha h5 hd pred hpred sol h4 hj
    have hsol : s.solution { env with solve := onFour sol } a = some sol :=
      solveRobust_onFour sol (by rw [List.length_map, h5]) a.altM (s.startPoint a)
    have hpub : (Turn.solve now g localRef cluster).published
        { env with solve := onFour sol } s = some (a, sol) := by
      refine Turn.published_of_attempted ?_ hj hd
      rw [attempted_eq, ha, Option.map_some, hsol]
    obtain ⟨smoothed, hout⟩ := Turn.out_of_published hpub
    have hrow := List.mem_singleton_self (OutMsg.fix (((Turn.solve now g localRef cluster).step
      { env with solve := onFour sol } s).row a sol smoothed))
    rw [← hout] at hrow
    exact h (onFour sol) (onFour_measures h4) _ hrow a sol hpub h4 pred hpred
  · intro h solve hm row _ a sol hpub h4 pred hpred
    obtain ⟨_, _, _, _, heq, ha, hj, hd⟩ := Turn.published_eq_some hpub
    cases heq
    rw [attempted_eq] at ha
    obtain ⟨a', ha', heq⟩ := Option.map_eq_some_iff.1 ha
    obtain ⟨rfl, hsol⟩ := Prod.mk.inj heq
    rcases used_of_solution hm hsol h4 with h4' | h5
    · have hgate := gate_of_attemptOf ha'
      rw [if_pos h4', hpred] at hgate
      exact consistent_of_judge hj hgate
    · exact h a' ha' h5 hd pred hpred sol h4 hj

end State

/-! ## Five receivers, one of them bad -/

namespace Sample

def flying : Icao := ⟨0x40621d⟩

/-- Five receivers, and an aircraft going east at 186 m/s: fixes at seconds 100 and 104. -/
def tracked : State ℚ :=
  let s := Shard.run env (Shard.boot config)
    (["Zero", "One", "Two", "Three", "Four"].map fun u => arrives 1 u none)
  { s with
    altsFt := s.altsFt.insert flying 36000
    tracks := s.tracks.insert flying
      { lastPos := some ⟨48, 201 / 100, 11000⟩, lastTimeScaled := 104, lastAttemptScaled := 104
        lastGatedAttemptScaled := 0, speedRejects := 0 }
    acLog := s.acLog.insert flying
      { AcLog.default with
        fixes := [⟨100, ⟨48, 2, 11000⟩, 50⟩, ⟨104, ⟨48, 201 / 100, 11000⟩, 50⟩] } }

/-- Two kilometres behind the last fix, six seconds later. -/
def ghost : Solution ℚ :=
  { pos := ⟨48, 1983 / 1000, 10973⟩, rmsS := 1e-7, errEstM := 30, errGeomM := 30, iterations := 4
    tTx := 110, residualsS := [0, 0, 0, 0] }

def aloft : Group ℚ := { created := 0, icao := flying, df17 := false, entries := [] }

def fiveArrivals : List (Arrival ℚ) := (List.range 5).map fun rx => ⟨rx, 110, 1e-7, 110⟩

/-- The solver finds the ghost once one of the five is left out. -/
def ghostly : Env ℚ := { env with solve := State.onFour ghost }

end Sample

/-- A fix on four of five observations is published two kilometres behind a track that it does
    not agree with. -/
theorem State.ghost_passes_gate :
    ¬ ∀ (env : Env ℚ) (s : State ℚ) now g localRef cluster, env.solve.Measures →
      s.GateHolds env now g localRef cluster := by
  intro h
  have hbad : ((Turn.solve (Sample.seconds 110) Sample.aloft 0 Sample.fiveArrivals).published
      Sample.ghostly Sample.tracked).any (fun p => p.2.residualsS.length == 4 &&
        (Sample.tracked.trackPrediction Sample.flying p.1.altM
          (Sample.tracked.scaledNow (Sample.seconds 110))).any fun pred =>
            !fourRxConsistent pred p.2) = true := by
    decide +kernel
  obtain ⟨⟨a, sol⟩, hpub, h1⟩ := (Option.any_eq_true _ _).1 hbad
  rw [Bool.and_eq_true, beq_iff_eq] at h1
  obtain ⟨pred, hpred, h2⟩ := (Option.any_eq_true _ _).1 h1.2
  obtain ⟨smoothed, hout⟩ := Turn.out_of_published hpub
  have hrow := List.mem_singleton_self (OutMsg.fix (((Turn.solve (Sample.seconds 110) Sample.aloft 0
    Sample.fiveArrivals).step Sample.ghostly Sample.tracked).row a sol smoothed))
  rw [← hout] at hrow
  have h3 := h Sample.ghostly Sample.tracked (Sample.seconds 110) Sample.aloft 0
    Sample.fiveArrivals (onFour_measures rfl) _ hrow a sol hpub h1.1 pred hpred
  rw [h3] at h2
  cases h2

end Mlatd
