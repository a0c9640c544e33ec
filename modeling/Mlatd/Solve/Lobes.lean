/-
  Which fits the lobe test has seen (solve.rs, solve_robust).

  The test runs once, on the full set's fit. Its refusal and a failed solve are the same `none`,
  and the leave-one-out retry that follows either takes its fits as they come. `TakesSubset` is
  when the retry's fit is the one returned. The inner solve, the mirror and the distance are
  parameters here; `solveRobust_eq` puts the ones of solve.rs in their place.
-/
import Mlatd.Solve

namespace Mlatd

variable {F : Type} [F64 F]

/-- A solution carries one residual for each observation it was fitted on. -/
def Solver.Measures (solve : Solver F) : Prop :=
  ∀ obs altM init s, solve obs altM init = some s → s.residualsS.length = obs.length

/-- The retry is due: the full fit failed or fits badly. -/
def triggers : Option (Solution F) → Bool
  | some s => decide (0.5e-6 < s.rmsS)
  | none => true

theorem triggers_iff (full : Option (Solution F)) :
    triggers full = true ↔ ∀ f, full = some f → 0.5e-6 < f.rmsS := by
  cases full with
  | none => exact iff_of_true rfl nofun
  | some f =>
    unfold triggers
    rw [decide_eq_true_iff]
    exact ⟨fun h g hg => Option.some.inj hg ▸ h, fun h => h f rfl⟩

/-- The residual that the stated timing errors predict. -/
def expectedRms (obs : List (Observation F)) : F :=
  F64.sqrt (F64.sum (obs.map fun o => o.errS * o.errS) / F64.ofNat obs.length)

section
variable (solve : Solver F) (mirror : List (Observation F) → Geodetic F → Option (Geodetic F))
  (distance : Geodetic F → Geodetic F → F)

/-- `acrossTheLine` with any mirror and any distance. -/
def acrossBy (obs : List (Observation F)) (altM : F) (sol : Solution F) : Option (Solution F) :=
  if 4 < obs.length ∧ sol.rmsS ≤ lobeTestRmsFactor * expectedRms obs then some sol
  else
    match mirror obs sol.pos with
    | none => none
    | some m =>
      match solve obs altM m with
      | none => some sol
      | some other =>
        if distance other.pos sol.pos <
            3.0 * F64.max (F64.max sol.errGeomM other.errGeomM) 100.0 then some sol
        else
          let (good, bad) := if other.rmsS < sol.rmsS then (other, sol) else (sol, other)
          if bad.rmsS < lobeAmbiguousFactor * good.rmsS then none else some good

/-- The full-set solve and its lobe test. -/
def fullFit (obs : List (Observation F)) (altM : F) (init : Geodetic F) : Option (Solution F) :=
  (solve obs altM init).bind fun s => acrossBy solve mirror distance obs altM s

/-- `solveRobust` with any mirror and any distance. -/
def solveRobustBy (obs : List (Observation F)) (altM : F) (init : Geodetic F) :
    Option (Solution F) :=
  let full := fullFit solve mirror distance obs altM init
  if !triggers full || decide (obs.length < 5) then full
  else (List.range obs.length).foldl (leaveOneOut solve obs altM init) full

theorem acrossTheLine_eq (obs : List (Observation F)) (altM : F) (sol : Solution F) :
    acrossTheLine solve obs altM sol =
      acrossBy solve mirrorAcrossReceivers Geodetic.haversineM obs altM sol := by
  unfold acrossTheLine acrossBy expectedRms
  generalize mirrorAcrossReceivers obs sol.pos = m
  rfl

theorem solveRobust_eq (obs : List (Observation F)) (altM : F) (init : Geodetic F) :
    solveRobust solve obs altM init =
      solveRobustBy solve mirrorAcrossReceivers Geodetic.haversineM obs altM init := by
  unfold solveRobust solveRobustBy fullFit
  simp only [acrossTheLine_eq]
  rfl

/-- The fit and the one from the mirrored start are two lobes that fit alike. -/
def Ambiguous (obs : List (Observation F)) (altM : F) (sol : Solution F) : Prop :=
  ¬ (4 < obs.length ∧ sol.rmsS ≤ lobeTestRmsFactor * expectedRms obs) ∧
    ∃ m other, mirror obs sol.pos = some m ∧ solve obs altM m = some other ∧
      ¬ distance other.pos sol.pos <
        3.0 * F64.max (F64.max sol.errGeomM other.errGeomM) 100.0 ∧
      if other.rmsS < sol.rmsS then sol.rmsS < lobeAmbiguousFactor * other.rmsS
      else other.rmsS < lobeAmbiguousFactor * sol.rmsS

/-- What came out of the lobe test. -/
def LobeTested (obs : List (Observation F)) (altM : F) (init : Geodetic F) (r : Solution F) :
    Prop :=
  ∃ s, solve obs altM init = some s ∧ acrossBy solve mirror distance obs altM s = some r

/-- A leave-one-out fit takes the place of the full one: that one failed, was refused or is worse
    than half a microsecond, and the fit without some observation is better. -/
def TakesSubset (obs : List (Observation F)) (altM : F) (init : Geodetic F) : Prop :=
  (∀ f, fullFit solve mirror distance obs altM init = some f → 0.5e-6 < f.rmsS) ∧
    ∃ k < obs.length, ∃ s, solve (obs.eraseIdx k) altM init = some s ∧
      ∀ f, fullFit solve mirror distance obs altM init = some f → s.rmsS < f.rmsS

/-- Two lobes that fit alike give no fix, and no fit on four observations gets by the test. -/
structure LobesTested (obs : List (Observation F)) (altM : F) (init : Geodetic F) : Prop where
  ambiguous : ∀ s, solve obs altM init = some s → Ambiguous solve mirror distance obs altM s →
    solveRobustBy solve mirror distance obs altM init = none
  tested : ∀ r, solveRobustBy solve mirror distance obs altM init = some r →
    r.residualsS.length = 4 → LobeTested solve mirror distance obs altM init r

end

/-! ## The retry -/

section
variable {solve : Solver F} {obs : List (Observation F)} {altM : F} {init : Geodetic F}

/-- The fit without one of the observations `ks`. -/
def SubsetFit (solve : Solver F) (obs : List (Observation F)) (altM : F) (init : Geodetic F)
    (ks : List ℕ) (s : Solution F) : Prop :=
  ∃ k ∈ ks, solve (obs.eraseIdx k) altM init = some s

theorem leaveOneOut_cases (best : Option (Solution F)) (k : ℕ) :
    (leaveOneOut solve obs altM init best k = best ∧
      ∀ s, solve (obs.eraseIdx k) altM init = some s → ∃ b, best = some b ∧ ¬ s.rmsS < b.rmsS) ∨
    ∃ s, solve (obs.eraseIdx k) altM init = some s ∧ (∀ b, best = some b → s.rmsS < b.rmsS) ∧
      leaveOneOut solve obs altM init best k = some s := by
  unfold leaveOneOut
  cases hs : solve (obs.eraseIdx k) altM init with
  | none => exact Or.inl ⟨rfl, nofun⟩
  | some s =>
    cases best with
    | none => exact Or.inr ⟨s, rfl, nofun, rfl⟩
    | some b =>
      simp only
      by_cases hlt : s.rmsS < b.rmsS
      · refine Or.inr ⟨s, rfl, fun b' hb' => ?_, if_pos hlt⟩
        cases hb'
        exact hlt
      · refine Or.inl ⟨if_neg hlt, fun s' hs' => ?_⟩
        cases hs'
        exact ⟨b, rfl, hlt⟩

/-- Once a leave-one-out fit is the best, one of them stays it. -/
theorem foldl_leaveOneOut_of_subset (ks : List ℕ) {s : Solution F} {l : List ℕ}
    (h : SubsetFit solve obs altM init l s) (hl : ∀ k ∈ ks, k ∈ l) :
    ∃ r, SubsetFit solve obs altM init l r ∧
      ks.foldl (leaveOneOut solve obs altM init) (some s) = some r := by
  induction ks generalizing s with
  | nil => exact ⟨s, h, rfl⟩
  | cons k ks ih =>
    have hk : ∀ k ∈ ks, k ∈ l := fun k' hk' => hl k' (List.mem_cons_of_mem _ hk')
    rw [List.foldl_cons]
    rcases leaveOneOut_cases (some s) k with ⟨h1, -⟩ | ⟨r, hr, -, h1⟩
    · rw [h1]
      exact ih h hk
    · rw [h1]
      exact ih ⟨k, hl k List.mem_cons_self, hr⟩ hk

/-- The retry keeps what it starts with, unless a leave-one-out fit is better. -/
theorem foldl_leaveOneOut (solve : Solver F) (obs : List (Observation F)) (altM : F)
    (init : Geodetic F) (ks : List ℕ) (best : Option (Solution F)) :
    ((∃ s, SubsetFit solve obs altM init ks s ∧ ∀ b, best = some b → s.rmsS < b.rmsS) →
      ∃ r, SubsetFit solve obs altM init ks r ∧
        ks.foldl (leaveOneOut solve obs altM init) best = some r) ∧
    ((¬ ∃ s, SubsetFit solve obs altM init ks s ∧ ∀ b, best = some b → s.rmsS < b.rmsS) →
      ks.foldl (leaveOneOut solve obs altM init) best = best) := by
  induction ks with
  | nil =>
    constructor
    · rintro ⟨s, ⟨k, hk, -⟩, -⟩
      cases hk
    · intro _
      rfl
  | cons k ks ih =>
    rw [List.foldl_cons]
    rcases leaveOneOut_cases best k with ⟨h1, h2⟩ | ⟨s, hs, hbest, h1⟩
    · -- this fit is not better: it is the others that decide
      have hcongr : (∃ s, SubsetFit solve obs altM init (k :: ks) s ∧
            ∀ b, best = some b → s.rmsS < b.rmsS) ↔
          ∃ s, SubsetFit solve obs altM init ks s ∧ ∀ b, best = some b → s.rmsS < b.rmsS := by
        constructor
        · rintro ⟨s, ⟨k', hk', hs⟩, hlt⟩
          rcases List.mem_cons.1 hk' with rfl | hk'
          · obtain ⟨b, hb, hn⟩ := h2 s hs
            exact absurd (hlt b hb) hn
          · exact ⟨s, ⟨k', hk', hs⟩, hlt⟩
        · rintro ⟨s, ⟨k', hk', hs⟩, hlt⟩
          exact ⟨s, ⟨k', List.mem_cons_of_mem _ hk', hs⟩, hlt⟩
      rw [h1, hcongr]
      refine ⟨fun h => ?_, ih.2⟩
      obtain ⟨r, ⟨k', hk', hr⟩, hf⟩ := ih.1 h
      exact ⟨r, ⟨k', List.mem_cons_of_mem _ hk', hr⟩, hf⟩
    · rw [h1]
      have hfit : SubsetFit solve obs altM init (k :: ks) s := ⟨k, List.mem_cons_self, hs⟩
      refine ⟨fun _ => ?_, fun h => absurd ⟨s, hfit, hbest⟩ h⟩
      exact foldl_leaveOneOut_of_subset ks hfit fun k' hk' => List.mem_cons_of_mem _ hk'

end

/-! ## What is returned -/

section
variable {solve : Solver F} {mirror : List (Observation F) → Geodetic F → Option (Geodetic F)}
  {distance : Geodetic F → Geodetic F → F} {obs : List (Observation F)} {altM : F}
  {init : Geodetic F}

theorem acrossBy_eq_none {s : Solution F} (h : Ambiguous solve mirror distance obs altM s) :
    acrossBy solve mirror distance obs altM s = none := by
  obtain ⟨h1, m, other, hm, hs, hd, ha⟩ := h
  unfold acrossBy
  rw [if_neg h1]
  simp only [hm, hs, if_neg hd]
  by_cases hlt : other.rmsS < s.rmsS
  · rw [if_pos hlt] at ha
    simp [hlt, ha]
  · rw [if_neg hlt] at ha
    simp [hlt, ha]

/-- The test returns the fit it is given, or that from the mirrored start. -/
theorem acrossBy_eq_some {s r : Solution F} (h : acrossBy solve mirror distance obs altM s = some r) :
    r = s ∨ ∃ m, solve obs altM m = some r := by
  unfold acrossBy at h
  split_ifs at h with h1
  · exact Or.inl (Option.some.inj h).symm
  · cases hm : mirror obs s.pos with
    | none =>
      rw [hm] at h
      cases h
    | some m =>
      cases hs : solve obs altM m with
      | none =>
        simp only [hm, hs] at h
        exact Or.inl (Option.some.inj h).symm
      | some other =>
        simp only [hm, hs] at h
        by_cases h2 : distance other.pos s.pos <
            3.0 * F64.max (F64.max s.errGeomM other.errGeomM) 100.0
        · rw [if_pos h2] at h
          exact Or.inl (Option.some.inj h).symm
        · rw [if_neg h2] at h
          by_cases h3 : other.rmsS < s.rmsS
          · simp only [if_pos h3] at h
            split_ifs at h
            cases h
            exact Or.inr ⟨m, hs⟩
          · simp only [if_neg h3] at h
            split_ifs at h
            exact Or.inl (Option.some.inj h).symm

theorem fullFit_of_ambiguous {s : Solution F} (hs : solve obs altM init = some s)
    (h : Ambiguous solve mirror distance obs altM s) :
    fullFit solve mirror distance obs altM init = none := by
  unfold fullFit
  rw [hs, Option.bind_some, acrossBy_eq_none h]

theorem lobeTested_of_fullFit {r : Solution F}
    (h : fullFit solve mirror distance obs altM init = some r) :
    LobeTested solve mirror distance obs altM init r :=
  Option.bind_eq_some_iff.1 h

theorem LobeTested.length (hm : solve.Measures) {r : Solution F}
    (h : LobeTested solve mirror distance obs altM init r) :
    r.residualsS.length = obs.length := by
  obtain ⟨s, hs, hr⟩ := h
  rcases acrossBy_eq_some hr with rfl | ⟨m, hr⟩
  · exact hm _ _ _ _ hs
  · exact hm _ _ _ _ hr

/-- A leave-one-out fit is returned where one takes the place of the full fit and there is a
    receiver to spare; else the full fit is. -/
theorem solveRobustBy_cases (solve : Solver F)
    (mirror : List (Observation F) → Geodetic F → Option (Geodetic F))
    (distance : Geodetic F → Geodetic F → F) (obs : List (Observation F)) (altM : F)
    (init : Geodetic F) :
    (5 ≤ obs.length ∧ TakesSubset solve mirror distance obs altM init ∧
      ∃ r, SubsetFit solve obs altM init (List.range obs.length) r ∧
        solveRobustBy solve mirror distance obs altM init = some r) ∨
    (¬ (5 ≤ obs.length ∧ TakesSubset solve mirror distance obs altM init) ∧
      solveRobustBy solve mirror distance obs altM init =
        fullFit solve mirror distance obs altM init) := by
  have hiff : (∃ s, SubsetFit solve obs altM init (List.range obs.length) s ∧
        ∀ f, fullFit solve mirror distance obs altM init = some f → s.rmsS < f.rmsS) ↔
      ∃ k < obs.length, ∃ s, solve (obs.eraseIdx k) altM init = some s ∧
        ∀ f, fullFit solve mirror distance obs altM init = some f → s.rmsS < f.rmsS := by
    constructor
    · rintro ⟨s, ⟨k, hk, hs⟩, h⟩
      exact ⟨k, List.mem_range.1 hk, s, hs, h⟩
    · rintro ⟨k, hk, s, hs, h⟩
      exact ⟨s, ⟨k, List.mem_range.2 hk, hs⟩, h⟩
  unfold TakesSubset
  rw [← hiff]
  unfold solveRobustBy
  simp only
  obtain ⟨hbetter, hkept⟩ := foldl_leaveOneOut solve obs altM init (List.range obs.length)
    (fullFit solve mirror distance obs altM init)
  generalize fullFit solve mirror distance obs altM init = full at *
  by_cases h5 : obs.length < 5
  · right
    rw [decide_eq_true h5, Bool.or_true, if_pos rfl]
    exact ⟨fun h => absurd h.1 (by omega), rfl⟩
  · rw [decide_eq_false h5, Bool.or_false]
    rw [← triggers_iff]
    cases ht : triggers full with
    | true =>
      rw [Bool.not_true, if_neg Bool.false_ne_true]
      by_cases hb : ∃ s, SubsetFit solve obs altM init (List.range obs.length) s ∧
          ∀ f, full = some f → s.rmsS < f.rmsS
      · exact Or.inl ⟨by omega, ⟨rfl, hb⟩, hbetter hb⟩
      · exact Or.inr ⟨fun h => hb h.2.2, hkept hb⟩
    | false =>
      rw [Bool.not_false, if_pos rfl]
      exact Or.inr ⟨fun h => Bool.false_ne_true h.2.1, rfl⟩

/-- **Which inputs the lobe test covers**: two lobes that fit alike give no fix and every fit on
    four observations has been through the test, exactly where no leave-one-out fit takes the full
    one's place, or there are six observations or more and no two lobes fit alike. -/
theorem lobes_tested_iff (hm : solve.Measures) :
    LobesTested solve mirror distance obs altM init ↔
      (5 ≤ obs.length → TakesSubset solve mirror distance obs altM init →
        6 ≤ obs.length ∧
          ∀ s, solve obs altM init = some s → ¬ Ambiguous solve mirror distance obs altM s) := by
  constructor
  · intro h h5 ht
    rcases solveRobustBy_cases solve mirror distance obs altM init with
      ⟨-, -, r, ⟨k, hk, hr⟩, heq⟩ | ⟨hn, -⟩
    · have hlen : r.residualsS.length = obs.length - 1 := by
        rw [hm _ _ _ _ hr, List.length_eraseIdx, if_pos (List.mem_range.1 hk)]
      constructor
      · by_contra h6
        have := (h.tested r heq (by omega)).length hm
        omega
      · intro s hs ha
        rw [h.ambiguous s hs ha] at heq
        cases heq
    · exact absurd ⟨h5, ht⟩ hn
  · intro h
    rcases solveRobustBy_cases solve mirror distance obs altM init with
      ⟨h5, ht, r, ⟨k, hk, hr⟩, heq⟩ | ⟨-, heq⟩
    · obtain ⟨h6, ha⟩ := h h5 ht
      constructor
      · intro s hs hs'
        exact absurd hs' (ha s hs)
      · intro r' hr' hlen
        rw [heq] at hr'
        cases hr'
        rw [hm _ _ _ _ hr, List.length_eraseIdx, if_pos (List.mem_range.1 hk)] at hlen
        omega
    · constructor
      · intro s hs ha
        rw [heq, fullFit_of_ambiguous hs ha]
      · intro r hr _
        rw [heq] at hr
        exact lobeTested_of_fullFit hr

end

/-! ## Five observations in two lobes -/

namespace Lobes

/-- A fit that stays where it starts, with a residual of 1 µs. -/
def stays : Solver ℚ := fun obs _ init =>
  some { pos := init, rmsS := 1e-6, errEstM := 30, errGeomM := 30, iterations := 3, tTx := 0
         residualsS := obs.map fun _ => 1e-6 }

theorem stays_measures : stays.Measures := by
  intro obs altM init s hs
  cases hs
  exact List.length_map _

/-- The point as far east as this one is west. -/
def across (_ : List (Observation ℚ)) (p : Geodetic ℚ) : Option (Geodetic ℚ) :=
  some { p with lonDeg := -p.lonDeg }

/-- Twelve kilometres apart, whatever the points. -/
def twelveKm (_ _ : Geodetic ℚ) : ℚ := 12000

/-- `n` observations good to 50 ns. -/
def heard (n : ℕ) : List (Observation ℚ) := List.replicate n ⟨⟨0, 0, 0⟩, 0, 5e-8⟩

def eastOfLine : Geodetic ℚ := ⟨46, 1 / 10, 1000⟩

theorem heard_ambiguous :
    Ambiguous stays across twelveKm (heard 5) 1000
      { pos := eastOfLine, rmsS := 1e-6, errEstM := 30, errGeomM := 30, iterations := 3, tTx := 0
        residualsS := (heard 5).map fun _ => 1e-6 } := by
  refine ⟨by decide +kernel, _, _, rfl, rfl, by decide +kernel, by decide +kernel⟩

/-- Of four observations every fix has been through the test. -/
theorem lobes_tested_iff_four : LobesTested stays across twelveKm (heard 4) 1000 eastOfLine :=
  (lobes_tested_iff stays_measures).2 fun h => absurd h (by decide)

/-- Five observations in two lobes that fit alike are published on four of them. -/
theorem ambiguous_published :
    ¬ ∀ (solve : Solver ℚ) mirror distance obs altM init, solve.Measures → 4 ≤ obs.length →
      LobesTested solve mirror distance obs altM init := by
  intro h
  have h5 := h stays across twelveKm (heard 5) 1000 eastOfLine stays_measures (by decide)
  have hnone := h5.ambiguous _ rfl heard_ambiguous
  unfold solveRobustBy at hnone
  rw [fullFit_of_ambiguous rfl heard_ambiguous] at hnone
  revert hnone
  decide +kernel

end Lobes

end Mlatd
