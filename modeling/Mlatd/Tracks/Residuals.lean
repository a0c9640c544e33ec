/-
  Whose residual trains whose record (state.rs, solve_cluster): one call updates the record of a
  solved receiver by the residual of its own observation, that of a benched one by its own arrival,
  each at most once, and no other.
-/
import Mlatd.Lib.Vec
import Mlatd.Sample
import Mlatd.Solve.Newton
import Mlatd.State.Vectors
import Mlatd.Tracks.Attempt

namespace Mlatd

variable {F : Type} [F64 F]

/-! ## One update of a record -/

namespace RxBias

/-- A residual learnt. -/
def learnt (withMad : Bool) (r : F) (q : RxBias F) : RxBias F :=
  let k : F := if q.n < 50 then 0.10 else 0.02
  let biasS := q.biasS + k * r
  { biasS := biasS
    madS := if withMad then q.madS + k * (F64.abs (r - biasS) - q.madS) else q.madS
    n := q.n + 1 }

/-- A benched receiver's record, its arrival at `t` where `predicted` was expected. -/
def trainedOn (predicted t : F) (q : RxBias F) : RxBias F :=
  let r := predicted - (t + q.biasS)
  let biasS := q.biasS + 0.02 * r
  { q with biasS := biasS, madS := q.madS + 0.02 * (F64.abs (r - biasS) - q.madS) }

end RxBias

namespace State

theorem foldl_learnOne_rxBias (withMad : Bool) (os : List (ℕ × F)) (s : State F) :
    (os.foldl (learnOne withMad) s).rxBias =
      os.foldl (fun l o => l.modify o.1 (RxBias.learnt withMad o.2)) s.rxBias := by
  induction os generalizing s with
  | nil => rfl
  | cons o os ih => exact ih (learnOne withMad s o)

/-- The arrival expected at a receiver of a transmission from `tx` at `tTx`. -/
def predicted (s : State F) (tx : Ecef F) (tTx : F) (rx : ℕ) : F :=
  tTx + dist tx (s.receiver rx).ecef / cMps

theorem foldl_trainBenched_rxBias (tx : Ecef F) (tTx : F) (bs : List (ℕ × F)) (s : State F) :
    (bs.foldl (fun s b => s.trainBenched tx tTx b) s).rxBias =
      bs.foldl (fun l b => l.modify b.1 (RxBias.trainedOn (s.predicted tx tTx b.1) b.2))
        s.rxBias := by
  induction bs generalizing s with
  | nil => rfl
  | cons b bs ih => exact ih (s.trainBenched tx tTx b)

/-- A record that a list of records holds modified, where it holds it at all. -/
theorem bias_of_getElem? {s s' : State F} {rx : ℕ} {f : RxBias F → RxBias F}
    (h : s'.rxBias[rx]? = s.rxBias[rx]?.map f) :
    s'.bias rx = s.bias rx ∨ s'.bias rx = f (s.bias rx) := by
  unfold bias
  rw [List.getD_eq_getElem?_getD, List.getD_eq_getElem?_getD, h]
  cases s.rxBias[rx]? with
  | none => exact Or.inl rfl
  | some q => exact Or.inr rfl

theorem bias_eq_of_getElem? {s s' : State F} {rx : ℕ} (h : s'.rxBias[rx]? = s.rxBias[rx]?) :
    s'.bias rx = s.bias rx := by
  unfold bias
  rw [List.getD_eq_getElem?_getD, List.getD_eq_getElem?_getD, h]

/-! ## What a conclusion writes -/

/-- The records after the residuals of `a` are learnt. -/
theorem learnBias_rxBias (s : State F) (a : Attempt F) (sol : Solution F) (withMad : Bool) :
    (s.learnBias a sol withMad).rxBias =
      if sol.residualsS.length = a.used.length ∧ 5 ≤ a.used.length ∧ sol.errEstM < 500.0 then
        ((a.used.map Used.rx).zip sol.residualsS).foldl
          (fun l o => l.modify o.1 (RxBias.learnt withMad o.2)) s.rxBias
      else s.rxBias := by
  unfold learnBias
  split
  · exact foldl_learnOne_rxBias withMad _ s
  · rfl

theorem publish_rxBias (s : State F) (a : Attempt F) (sol : Solution F) :
    (s.publish a sol).1.rxBias = (s.learnBias a sol true).rxBias := by
  have hsmooth (t : State F) : (t.smooth a sol).1.rxBias = t.rxBias := by
    unfold smooth
    split
    · rfl
    · split <;> rfl
  rw [learnBias_rxBias, ← learnBias_rxBias { s with statsSolved := s.statsSolved + 1 }]
  exact hsmooth _

theorem selfTruth_rxBias (s : State F) (a : Attempt F) (sol : Solution F) :
    (s.selfTruth a sol).1.rxBias = s.rxBias ∨
      (s.selfTruth a sol).1.rxBias = (s.learnBias a sol false).rxBias := by
  unfold selfTruth
  split
  · exact Or.inl rfl
  · refine Or.inr ?_
    simp only
    split
    · split <;> rfl
    · rfl

theorem noteSpeedReject_rxBias (s : State F) (icao : Icao) :
    (s.noteSpeedReject icao).rxBias = s.rxBias := by
  unfold noteSpeedReject
  simp only
  split <;> rfl

/-- An accepted solution trains the benched receivers, and then may train those it was made
    with. -/
theorem conclude_rxBias (s : State F) (a : Attempt F) (sol : Option (Solution F)) :
    (s.conclude a sol).1.rxBias = s.rxBias ∨
      ∃ r, sol = some r ∧ ((s.conclude a sol).1.rxBias = (s.trainAllBenched a r).rxBias ∨
        (s.conclude a sol).1.rxBias =
          ((s.trainAllBenched a r).learnBias a r (!a.isDf17)).rxBias) := by
  cases sol with
  | none => exact Or.inl rfl
  | some r =>
    unfold conclude
    simp only
    cases judge a r with
    | some refusal =>
      refine Or.inl ?_
      cases refusal with
      | tooFast => exact noteSpeedReject_rxBias s a.icao
      | uncertain | throttled | offTrack => rfl
    | none =>
      refine Or.inr ⟨r, rfl, ?_⟩
      cases a.isDf17 with
      | true => exact selfTruth_rxBias (s.trainAllBenched a r) a r
      | false => exact Or.inr (publish_rxBias (s.trainAllBenched a r) a r)

/-! ## Receiver by receiver -/

/-- A benched receiver is trained on its own arrival; no other record changes. -/
theorem trainAllBenched_bias (s : State F) (a : Attempt F) (sol : Solution F)
    (honce : (a.benched.map Prod.fst).Nodup) (rx : ℕ) :
    (s.trainAllBenched a sol).rxBias[rx]? = s.rxBias[rx]? ∨
      ∃ t, (rx, t) ∈ a.benched ∧ (s.trainAllBenched a sol).rxBias[rx]? =
        s.rxBias[rx]?.map (RxBias.trainedOn
          (s.predicted (Geodetic.toEcef { sol.pos with altM := a.altM }) sol.tTx rx) t) := by
  unfold trainAllBenched
  split
  · simp only
    rw [foldl_trainBenched_rxBias]
    by_cases hmem : rx ∈ a.benched.map Prod.fst
    · obtain ⟨b, hb, rfl⟩ := List.mem_map.1 hmem
      exact Or.inr ⟨b.2, hb, List.getElem?_foldl_modify_of_mem
        (fun b => RxBias.trainedOn (s.predicted _ sol.tTx b.1) b.2) honce _ hb⟩
    · exact Or.inl (List.getElem?_foldl_modify_of_notMem
        (fun b => RxBias.trainedOn (s.predicted _ sol.tTx b.1) b.2) _ _ hmem)
  · exact Or.inl rfl

/-- A solved receiver learns the residual at its own place, and only from a solution with a
    residual for every observation; no other record changes. -/
theorem learnBias_bias_cases (s : State F) (a : Attempt F) (sol : Solution F) (withMad : Bool)
    (honce : (a.used.map Used.rx).Nodup) (rx : ℕ) :
    (s.learnBias a sol withMad).rxBias[rx]? = s.rxBias[rx]? ∨
      sol.residualsS.length = a.used.length ∧ ∃ (i : ℕ) (r : F), (a.used.map Used.rx)[i]? = some rx ∧
        sol.residualsS[i]? = some r ∧ (s.learnBias a sol withMad).rxBias[rx]? =
          s.rxBias[rx]?.map (RxBias.learnt withMad r) := by
  rw [learnBias_rxBias]
  split
  · next hfull =>
    have hkeys : ((a.used.map Used.rx).zip sol.residualsS).map Prod.fst = a.used.map Used.rx :=
      List.map_fst_zip (by rw [List.length_map, hfull.1])
    rw [← hkeys] at honce
    by_cases hmem : rx ∈ ((a.used.map Used.rx).zip sol.residualsS).map Prod.fst
    · obtain ⟨o, ho, rfl⟩ := List.mem_map.1 hmem
      obtain ⟨i, hi⟩ := List.mem_iff_getElem?.1 ho
      obtain ⟨hrx, hr⟩ := List.getElem?_zip_eq_some.1 hi
      exact Or.inr ⟨hfull.1, i, o.2, hrx, hr, List.getElem?_foldl_modify_of_mem
        (fun o => RxBias.learnt withMad o.2) honce _ ho⟩
    · exact Or.inl (List.getElem?_foldl_modify_of_notMem
        (fun o => RxBias.learnt withMad o.2) _ _ hmem)
  · exact Or.inl rfl

/-- A conclusion changes the record of a receiver at most once. -/
theorem conclude_bias (s : State F) (a : Attempt F) (sol : Option (Solution F))
    (hbenched : (a.benched.map Prod.fst).Nodup) (hused : (a.used.map Used.rx).Nodup)
    (hapart : ∀ rx t, (rx, t) ∈ a.benched → rx ∉ a.used.map Used.rx) (rx : ℕ) :
    (s.conclude a sol).1.rxBias[rx]? = s.rxBias[rx]? ∨ ∃ r, sol = some r ∧
      ((∃ t, (rx, t) ∈ a.benched ∧ (s.conclude a sol).1.rxBias[rx]? =
          s.rxBias[rx]?.map (RxBias.trainedOn
            (s.predicted (Geodetic.toEcef { r.pos with altM := a.altM }) r.tTx rx) t)) ∨
        r.residualsS.length = a.used.length ∧ ∃ (i : ℕ) (x : F),
          (a.used.map Used.rx)[i]? = some rx ∧ r.residualsS[i]? = some x ∧
            (s.conclude a sol).1.rxBias[rx]? =
              s.rxBias[rx]?.map (RxBias.learnt (!a.isDf17) x)) := by
  rcases conclude_rxBias s a sol with hsame | ⟨r, rfl, hsame | hsame⟩
  · exact Or.inl (congrArg (·[rx]?) hsame)
  · rw [hsame]
    refine (trainAllBenched_bias s a r hbenched rx).imp_right fun h => ⟨r, rfl, Or.inl h⟩
  · rw [hsame]
    have htrain := trainAllBenched_bias s a r hbenched rx
    rcases learnBias_bias_cases (s.trainAllBenched a r) a r (!a.isDf17) hused rx with
      hkept | ⟨hlen, i, x, hrx, hx, hlearnt⟩
    · rw [hkept]
      exact htrain.imp_right fun h => ⟨r, rfl, Or.inl h⟩
    · rcases htrain with hkept | ⟨t, ht, -⟩
      · rw [hlearnt, hkept]
        exact Or.inr ⟨r, rfl, Or.inr ⟨hlen, i, x, hrx, hx, rfl⟩⟩
      · exact absurd (List.mem_of_getElem? hrx) (hapart rx t ht)

/-! ## One call -/

/-- The solution was fitted on all of `obs`. -/
def FullSet (solve : Solver F) (obs : List (Observation F)) (altM : F) (sol : Solution F) : Prop :=
  ∃ init, solve obs altM init = some sol

/-- It was fitted without one of them. -/
def LeftOut (solve : Solver F) (obs : List (Observation F)) (altM : F) (sol : Solution F) : Prop :=
  ∃ k < obs.length, ∃ init, solve (obs.eraseIdx k) altM init = some sol

theorem fullSet_or_leftOut {solve : Solver F} {obs : List (Observation F)} {altM : F}
    {init : Geodetic F} {sol : Solution F} (h : solveRobust solve obs altM init = some sol) :
    FullSet solve obs altM sol ∨ LeftOut solve obs altM sol := by
  rw [solveRobust_eq] at h
  rcases solveRobustBy_cases solve mirrorAcrossReceivers Geodetic.haversineM obs altM init with
    ⟨-, -, r, ⟨k, hk, hr⟩, heq⟩ | ⟨-, heq⟩
  · rw [heq] at h
    cases h
    exact Or.inr ⟨k, List.mem_range.1 hk, init, hr⟩
  · rw [heq] at h
    obtain ⟨f, hf, hacross⟩ := lobeTested_of_fullFit h
    rcases acrossBy_eq_some hacross with rfl | ⟨m, hm⟩
    · exact Or.inl ⟨init, hf⟩
    · exact Or.inl ⟨m, hm⟩

/-- Residuals train the receiver they belong to. `v` is what the loop over the cluster gathers, `w`
    what the cap leaves of it. -/
structure TrainsOwn (env : Env F) (s : State F) (now : Instant) (g : Group F) (localRef : ℕ)
    (cluster : List (Arrival F)) (v w : Vectors F) (s' : State F) : Prop where
  selects : Selects s cluster v
  caps : Caps v w
  aligned : Aligns s cluster w
  /-- What is solved are the observations of `w`, and the fit is on all of them or on all but
      one. -/
  fitted : ∀ a sol, s.attempted env now g localRef cluster = some (a, some sol) →
    a.used.map Used.obs = w.obs ∧
      (FullSet env.solve w.obs a.altM sol ∨ LeftOut env.solve w.obs a.altM sol)
  /-- A solved receiver learns at most once, the residual of its own observation. -/
  scored : ∀ rx ∈ w.rxIds, s'.bias rx = s.bias rx ∨
    ∃ (a : Attempt F) (sol : Solution F) (i : ℕ) (r : F),
      s.attempted env now g localRef cluster = some (a, some sol) ∧
        FullSet env.solve w.obs a.altM sol ∧ w.rxIds[i]? = some rx ∧ sol.residualsS[i]? = some r ∧
        s'.bias rx = (s.bias rx).learnt (!g.df17) r
  /-- None of them learns from a fit without one. -/
  leftOut : ∀ a sol, s.attempted env now g localRef cluster = some (a, some sol) →
    LeftOut env.solve w.obs a.altM sol → ∀ rx ∈ w.rxIds, s'.bias rx = s.bias rx
  /-- Another receiver is benched and trained on its own arrival, or keeps its record. -/
  others : ∀ rx, rx ∉ w.rxIds → s'.bias rx = s.bias rx ∨
    ∃ (a : Attempt F) (sol : Solution F) (t : F),
      s.attempted env now g localRef cluster = some (a, some sol) ∧ (rx, t) ∈ v.benched ∧
        s'.bias rx = (s.bias rx).trainedOn
          (s.predicted (Geodetic.toEcef { sol.pos with altM := a.altM }) sol.tTx rx) t

theorem benched_of_attempted {env : Env F} {s : State F} {now : Instant} {g : Group F}
    {localRef : ℕ} {cluster : List (Arrival F)} {a : Attempt F} {sol : Option (Solution F)}
    (h : s.attempted env now g localRef cluster = some (a, sol)) :
    a.benched = (s.selectObs cluster).benched := by
  unfold attempted at h
  simp only at h
  split at h
  · cases h
  · obtain ⟨a', ha, heq⟩ := Option.map_eq_some_iff.1 h
    cases heq
    have hmade := (Option.filter_eq_some_iff.1 ha).1
    unfold attemptAt at hmade
    obtain ⟨altFt, -, rfl⟩ := Option.map_eq_some_iff.1 hmade
    rfl

/-- What a call writes to the records, receiver by receiver. -/
theorem solveCluster_bias (env : Env F) (s : State F) (now : Instant) (g : Group F) (localRef : ℕ)
    (cluster : List (Arrival F)) (rx : ℕ) :
    (s.solveCluster env now g localRef cluster).1.bias rx = s.bias rx ∨
      ∃ (a : Attempt F) (sol : Solution F),
        s.attempted env now g localRef cluster = some (a, some sol) ∧
        ((∃ t, (rx, t) ∈ a.benched ∧
            (s.solveCluster env now g localRef cluster).1.bias rx = (s.bias rx).trainedOn
              (s.predicted (Geodetic.toEcef { sol.pos with altM := a.altM }) sol.tTx rx) t) ∨
          sol.residualsS.length = a.used.length ∧ ∃ (i : ℕ) (r : F),
            (a.used.map Used.rx)[i]? = some rx ∧ sol.residualsS[i]? = some r ∧
              (s.solveCluster env now g localRef cluster).1.bias rx =
                (s.bias rx).learnt (!g.df17) r) := by
  rcases solveCluster_cases env s now g localRef cluster with
    ⟨-, ⟨-, h⟩ | ⟨-, offsets, h⟩⟩ | ⟨a, sol, offsets, hatt, h⟩
  · rw [h]
    exact Or.inl rfl
  · rw [h]
    exact Or.inl rfl
  · rw [h]
    obtain ⟨hmade, -, -⟩ := made_of_attempted hatt
    set t := (State.entered { s with stampOffset := offsets } g.icao).noteAttempt a with ht
    have hused : (a.used.map Used.rx).Nodup := by
      rw [hmade.used]
      exact (nodup_selectObs_rx s cluster).sublist ((capUsed_sublist _).map Used.rx)
    have hbenched := benched_of_attempted hatt
    have honce : (a.benched.map Prod.fst).Nodup := by
      rw [hbenched]
      exact nodup_selectObs_benched s cluster
    have hapart : ∀ rx t, (rx, t) ∈ a.benched → rx ∉ a.used.map Used.rx := by
      intro rx t hb hu
      rw [hbenched] at hb
      rw [hmade.used] at hu
      have hclear :=
        (mem_selectObs_rx_iff s cluster rx).1 (((capUsed_sublist _).map Used.rx).subset hu)
      have hquarantined := (of_mem_selectObs_benched s cluster hb).2.1
      rw [hclear.2.2] at hquarantined
      cases hquarantined
    rcases conclude_bias t a sol honce hused hapart rx with
      hsame | ⟨r, rfl, ⟨at', hmem, htrained⟩ | ⟨hlen, i, x, hrx, hx, hlearnt⟩⟩
    · exact Or.inl (bias_eq_of_getElem? hsame)
    · rcases bias_of_getElem? htrained with hkept | htrained
      · exact Or.inl hkept
      · exact Or.inr ⟨a, r, hatt, Or.inl ⟨at', hmem, htrained⟩⟩
    · rw [hmade.isDf17] at hlearnt
      rcases bias_of_getElem? hlearnt with hkept | hlearnt
      · exact Or.inl hkept
      · exact Or.inr ⟨a, r, hatt, Or.inr ⟨hlen, i, x, hrx, hx, hlearnt⟩⟩

/-- **Residuals train the receiver they belong to**, over any inner solve with one residual for each
    observation. -/
theorem residuals_train_own [F64.TotalCmp F] (env : Env F) (hsolve : Solver.Measures env.solve)
    (s : State F) (now : Instant) (g : Group F) (localRef : ℕ) (cluster : List (Arrival F))
    (hsorted : cluster.Pairwise fun a b => F64.totalLe a.t b.t = true) :
    TrainsOwn env s now g localRef cluster (s.vectors cluster) (s.vectors cluster).cap
      (s.solveCluster env now g localRef cluster).1 := by
  have hselects := selects_vectors s hsorted
  have haligned := aligns_cap s hsorted
  have hcap := Vectors.cap_ofSelected (s.selectObs cluster)
  rw [← vectors_of_selectObs] at hcap
  obtain ⟨hobs, -, hrxIds⟩ := hcap
  have hfitted : ∀ a sol, s.attempted env now g localRef cluster = some (a, some sol) →
      a.used.map Used.obs = (s.vectors cluster).cap.obs ∧
        (FullSet env.solve (s.vectors cluster).cap.obs a.altM sol ∨
          LeftOut env.solve (s.vectors cluster).cap.obs a.altM sol) := by
    intro a sol hatt
    obtain ⟨hmade, -, hsol⟩ := made_of_attempted hatt
    rw [hobs, ← hmade.used]
    exact ⟨rfl, fullSet_or_leftOut hsol.symm⟩
  -- A fit without an observation has too few residuals to be learnt from.
  have hlearns : ∀ a sol, s.attempted env now g localRef cluster = some (a, some sol) →
      sol.residualsS.length = a.used.length →
        ¬ LeftOut env.solve (s.vectors cluster).cap.obs a.altM sol := by
    rintro a sol hatt hlen ⟨k, hk, init, hout⟩
    have hshort := hsolve _ _ _ _ hout
    rw [← (hfitted a sol hatt).1] at hk hshort
    rw [List.length_eraseIdx, if_pos hk, List.length_map] at hshort
    rw [List.length_map] at hk
    omega
  have hbenched : ∀ a sol, s.attempted env now g localRef cluster = some (a, some sol) →
      a.benched = (s.vectors cluster).benched := by
    intro a sol hatt
    rw [vectors_of_selectObs]
    exact benched_of_attempted hatt
  have hapart : ∀ rx t, (rx, t) ∈ (s.vectors cluster).benched →
      rx ∉ (s.vectors cluster).cap.rxIds := by
    intro rx t hb hu
    rw [hrxIds] at hu
    have hclear := (mem_selectObs_rx_iff s cluster rx).1
      (((capUsed_sublist _).map Used.rx).subset hu)
    have hquarantined := (hselects.benched rx t hb).2.1
    rw [hclear.2.2] at hquarantined
    cases hquarantined
  refine ⟨hselects, caps_cap _, haligned, hfitted, ?_, ?_, ?_⟩
  · intro rx hrx
    rcases solveCluster_bias env s now g localRef cluster rx with
      hsame | ⟨a, sol, hatt, ⟨t, ht, -⟩ | ⟨hlen, i, r, hi, hr, hlearnt⟩⟩
    · exact Or.inl hsame
    · rw [hbenched a sol hatt] at ht
      exact absurd hrx (hapart rx t ht)
    · have hfull := (hfitted a sol hatt).2.resolve_right (hlearns a sol hatt hlen)
      rw [(made_of_attempted hatt).1.used, ← hrxIds] at hi
      exact Or.inr ⟨a, sol, i, r, hatt, hfull, hi, hr, hlearnt⟩
  · intro a sol hatt hout rx hrx
    rcases solveCluster_bias env s now g localRef cluster rx with
      hsame | ⟨a', sol', hatt', ⟨t, ht, -⟩ | ⟨hlen, -⟩⟩
    · exact hsame
    · rw [hbenched a' sol' hatt'] at ht
      exact absurd hrx (hapart rx t ht)
    · rw [hatt] at hatt'
      cases hatt'
      exact absurd hout (hlearns a sol hatt hlen)
  · intro rx hrx
    rcases solveCluster_bias env s now g localRef cluster rx with
      hsame | ⟨a, sol, hatt, ⟨t, ht, htrained⟩ | ⟨-, i, r, hi, -⟩⟩
    · exact Or.inl hsame
    · rw [hbenched a sol hatt] at ht
      exact Or.inr ⟨a, sol, t, hatt, ht, htrained⟩
    · rw [(made_of_attempted hatt).1.used, ← hrxIds] at hi
      exact absurd (List.mem_of_getElem? hi) hrx

/-! ## Six receivers -/

/-- An inner solve that finds the place of the receivers, and leaves each observation the
    thousandth part of its time. -/
def measuring : Env ℚ :=
  { Sample.env with
    solve := fun obs altM _ => some
      { pos := ⟨48, 2, altM⟩, rmsS := 0, errEstM := 10, errGeomM := 10, iterations := 1, tTx := 0,
        residualsS := obs.map fun o => o.tS / 1000 } }

theorem measuring_measures : Solver.Measures measuring.solve := by
  rintro obs altM init sol ⟨⟩
  exact List.length_map _

/-- Six receivers, the fourth in quarantine, and the altitude of their aircraft. -/
def sixReceivers : State ℚ :=
  { State.new 0 1 false false (0, 0) 0 with
    receivers := List.replicate 6 (Sample.feeder "Home" none)
    alive := List.replicate 6 true
    rxBias := (List.replicate 6 RxBias.default).set 3 { RxBias.default with madS := 1, n := 30 }
    altsFt := (∅ : HashMap Icao ℤ).insert ⟨0x3c6444⟩ 36000 }

/-- One arrival of each, a tenth of a millisecond apart, and the first receiver's echo. -/
def sixArrivals : List (Arrival ℚ) :=
  (List.range 7).map fun i => ⟨i % 6, i / 10000, 1 / 1000000, 1⟩

theorem sixArrivals_sorted : sixArrivals.Pairwise fun a b => F64.totalLe a.t b.t = true := by
  decide +kernel

def sixHeard : Group ℚ := { created := 0, icao := ⟨0x3c6444⟩, df17 := false, entries := [] }

def sixTrained : State ℚ :=
  (sixReceivers.solveCluster measuring (Sample.seconds 10) sixHeard 0 sixArrivals).1

/-- Five are solved and learn a tenth of their residual, the benched one learns from its own
    arrival. -/
theorem residuals_train_own_six :
    TrainsOwn measuring sixReceivers (Sample.seconds 10) sixHeard 0 sixArrivals
      (sixReceivers.vectors sixArrivals) (sixReceivers.vectors sixArrivals).cap sixTrained ∧
    (sixReceivers.vectors sixArrivals).cap.rxIds = [0, 1, 2, 4, 5] ∧
    (∀ rx ∈ [0, 1, 2, 4, 5], (sixTrained.bias rx).n = 1 ∧
      (sixTrained.bias rx).biasS = rx / 100000000) ∧
    (sixTrained.bias 3).biasS ≠ 0 :=
  ⟨residuals_train_own measuring measuring_measures sixReceivers _ sixHeard 0 sixArrivals
    sixArrivals_sorted, by decide +kernel, by decide +kernel, by decide +kernel⟩

end State

end Mlatd
