/-
  The counters of a shard (state.rs, stats_solved, stats_rejected, stats_sync_obs and the results
  of AcLog; main.rs, the stats task).

  Every attempt outside the backoff comes to one of three ends (`Verdict`). `State.Counts` is what
  a message leaves of the counters: the observations it makes and nothing else. `Booked` is what
  a solve does. Over a run the counters of the status line tally with what the shard emitted and
  attempted (`counters_tally`), the rates that the stats task stores are the observations of each
  of its windows, and an aircraft's result count is the fixes emitted for it since it was last
  unknown (`results_counted`).
-/
import Mlatd.Lib.Ledger
import Mlatd.Spelling.Runs
import Mlatd.Tracks.Expiry
import Mlatd.Tracks.Publish
import Mlatd.Tracks.Recipients

namespace Mlatd

open Ledger

variable {F : Type} [F64 F]

namespace State

/-! ## What messages count -/

/-- The fixes that the log of an aircraft counts: `mlat_result_count`. -/
def resultsOf (s : State F) (k : Icao) : ℕ := ((s.acLog.lookup k).map AcLog.results).getD 0

/-- A reporter that a report of `rx` is paired with: another slot, and a live one. -/
def isPartner (s : State F) (rx rx2 : ℕ) : Bool := decide (rx2 ≠ rx) && s.isAlive rx2

/-- The earlier reporters of a sync point that a report of `rx` is paired with. -/
def partners (s : State F) (now : Instant) (rx : ℕ) (key : String × String) : List ℕ :=
  let sp := s.syncpointAt now key
  if maxReporters ≤ sp.reporters.length then []
  else (sp.reporters.map Prod.fst).filter (s.isPartner rx)

/-- The observations a message makes: one of the even and one of the odd frame with each
    partner. -/
def observations (env : Env F) (s : State F) (now : Instant) : ShardMsg F → ℕ
  | .sync r _ _ em om _ =>
    if s.live r then
      match decodeSync env em om with
      | none => 0
      | some p =>
        if (syncPositions (F := F) p.1 p.2).isSome then 2 * (s.partners now r.idx (em, om)).length
        else 0
    else 0
  | _ => 0

/-- `n` observations are counted and nothing else. -/
structure Counts (n : ℕ) (s s' : State F) : Prop where
  solved : s'.statsSolved = s.statsSolved
  rejected : s'.statsRejected = s.statsRejected
  syncObs : s'.statsSyncObs = s.statsSyncObs + n
  results : ∀ k, s'.resultsOf k = s.resultsOf k

namespace Counts

omit [F64 F] in
theorem refl (s : State F) : Counts 0 s s := ⟨rfl, rfl, rfl, fun _ => rfl⟩

omit [F64 F] in
theorem trans {n m : ℕ} {s s' s'' : State F} (h : Counts n s s') (h' : Counts m s' s'') :
    Counts (n + m) s s'' where
  solved := h'.solved.trans h.solved
  rejected := h'.rejected.trans h.rejected
  syncObs := by rw [h'.syncObs, h.syncObs, Nat.add_assoc]
  results k := (h'.results k).trans (h.results k)

omit [F64 F] in
theorem foldl {α : Type} {f : State F → α → State F} (hf : ∀ s a, Counts 0 s (f s a))
    (s : State F) (as : List α) : Counts 0 s (as.foldl f s) := by
  induction as generalizing s with
  | nil => exact refl s
  | cons a as ih => exact (hf s a).trans (ih (f s a))

end Counts

/-- An update of one log that keeps its results keeps those of every aircraft. -/
theorem resultsOf_upsert {s s' : State F} {icao : Icao} {f : AcLog F → AcLog F}
    (hs : s'.acLog = s.acLog.upsert icao AcLog.default f) (hf : ∀ a, (f a).results = a.results)
    (k : Icao) : s'.resultsOf k = s.resultsOf k := by
  unfold resultsOf
  rw [hs, Finmap.lookup_upsert]
  by_cases hk : k = icao
  · rw [if_pos hk, Option.map_some, Option.getD_some, hf, hk]
    cases s.acLog.lookup icao with
    | none => rfl
    | some a => rfl
  · rw [if_neg hk]

omit [F64 F] in
theorem resultsOf_mapVals {s s' : State F} {f : Icao → AcLog F → AcLog F}
    (hs : s'.acLog = s.acLog.mapVals f) (hf : ∀ k a, (f k a).results = a.results) (k : Icao) :
    s'.resultsOf k = s.resultsOf k := by
  unfold resultsOf
  rw [hs, Finmap.lookup_mapVals, Option.map_map]
  cases s.acLog.lookup k with
  | none => rfl
  | some a => exact hf k a

theorem onMlat_counts (env : Env F) (s : State F) (now : Instant) (r : RxRef) (t : F)
    (m : String) (at' : F) : Counts 0 s (s.onMlat env now r t m at') := by
  rcases onMlat_cases env s now r t m at' with h | ⟨-, icao, alts, raw, tS, -, h⟩
  · rw [h]
    exact Counts.refl s
  · rw [h]
    exact { Counts.refl s with
      results := resultsOf_upsert (noteMlat_acLog { s with altsFt := alts } r.idx icao at')
        fun _ => rfl }

theorem noteSync_counts (s : State F) (rx : ℕ) (icao : Icao) (t : F) :
    Counts 0 s (s.noteSync rx icao t) :=
  { Counts.refl s with results := resultsOf_upsert (noteSync_acLog s rx icao t) fun _ => rfl }

theorem countSync_counts (s : State F) (rx : ℕ) (icao : Icao) (ok : Bool) :
    Counts 1 s (s.countSync rx icao ok) :=
  { Counts.refl s with
    syncObs := rfl
    results := resultsOf_upsert (countSync_acLog s rx icao ok) fun _ => by cases ok <;> rfl }

theorem trainOnce_counts (s : State F) (icao : Icao) (rx rx2 : ℕ) (ta tb : F) :
    Counts 1 s (s.trainOnce icao rx rx2 ta tb) := by
  have h : Counts 0 s ((s.pushPair rx rx2 ta tb).1.pushPair rx2 rx tb ta).1 :=
    { Counts.refl s with }
  exact h.trans (countSync_counts _ rx icao _)

omit [F64 F] in
theorem isPartner_congr {s s' : State F} (h : SameSlots s s') (rx : ℕ) :
    s'.isPartner rx = s.isPartner rx := by
  funext rx2
  unfold isPartner
  rw [h.isAlive]

/-- A fold over the earlier reporters observes twice with each that is live and another slot. -/
theorem foldl_trainPair_counts (icao : Icao) (rx : ℕ) (te to' : F) (sps : List (ℕ × F × F))
    (s : State F) :
    Counts (2 * ((sps.map Prod.fst).filter (s.isPartner rx)).length) s
      (sps.foldl (trainPair icao rx te to') s) := by
  induction sps generalizing s with
  | nil => exact Counts.refl s
  | cons sp sps ih =>
    have hrest := ih (trainPair icao rx te to' s sp)
    rw [isPartner_congr (trainPair_sameSlots icao rx te to' s sp)] at hrest
    obtain ⟨rx2, te2, to2⟩ := sp
    by_cases hskip : rx2 = rx ∨ s.isAlive rx2 = false
    · have hkeep : trainPair icao rx te to' s (rx2, te2, to2) = s := if_pos hskip
      have hout : ¬ s.isPartner rx rx2 = true := by
        unfold isPartner
        rcases hskip with h | h
        · simp [h]
        · simp [h]
      rw [List.map_cons, List.filter_cons_of_neg hout, List.foldl_cons]
      rw [hkeep] at hrest ⊢
      exact hrest
    · have htrain : trainPair icao rx te to' s (rx2, te2, to2) =
          (s.trainOnce icao rx rx2 te te2).trainOnce icao rx rx2 to' to2 := if_neg hskip
      have hin : s.isPartner rx rx2 = true := by
        unfold isPartner
        simpa using hskip
      have h := ((trainOnce_counts s icao rx rx2 te te2).trans
        (trainOnce_counts _ icao rx rx2 to' to2)).trans (htrain ▸ hrest)
      rw [List.map_cons, List.filter_cons_of_pos hin, List.foldl_cons,
        List.length_cons, Nat.mul_succ, Nat.add_comm, htrain]
      exact h

theorem trainSync_counts (s : State F) (now : Instant) (rx : ℕ) (icao : Icao)
    (key : String × String) (te to' : F) :
    Counts (2 * (s.partners now rx key).length) s (s.trainSync now rx icao key te to') := by
  unfold trainSync partners
  simp only
  split
  · exact { Counts.refl s with }
  · have h := foldl_trainPair_counts icao rx te to' (s.syncpointAt now key).reporters
      { s with
        syncpoints := s.syncpoints.insert key
          { s.syncpointAt now key with
            reporters := (s.syncpointAt now key).reporters ++ [(rx, te, to')] } }
    exact ⟨h.solved, h.rejected, h.syncObs, h.results⟩

omit [F64 F] in
theorem partners_congr {s s' : State F} (hs : SameSlots s s') (hp : s'.syncpoints = s.syncpoints)
    (now : Instant) (rx : ℕ) (key : String × String) :
    s'.partners now rx key = s.partners now rx key := by
  unfold partners syncpointAt
  simp only [hp, isPartner_congr hs]

theorem onMlat_syncpoints (env : Env F) (s : State F) (now : Instant) (r : RxRef) (t : F)
    (m : String) (at' : F) : (s.onMlat env now r t m at').syncpoints = s.syncpoints := by
  rcases onMlat_cases env s now r t m at' with h | ⟨-, icao, alts, raw, tS, -, h⟩
  · rw [h]
  · rw [h]
    rfl

theorem onSync_counts (env : Env F) (s : State F) (now : Instant) (r : RxRef) (et ot : F)
    (em om : String) (at' : F) :
    Counts (s.observations env now (.sync r et ot em om at')) s
      (s.onSync env now r et ot em om at') := by
  unfold onSync observations
  simp only
  cases hl : s.live r with
  | false => exact Counts.refl s
  | true =>
    simp only [Bool.not_true, Bool.false_eq_true, if_false, if_true]
    cases decodeSync env em om with
    | none => exact Counts.refl s
    | some p =>
      obtain ⟨de, do'⟩ := p
      simp only
      cases syncPositions (F := F) de do' with
      | none => exact noteSync_counts s r.idx de.icao at'
      | some q =>
        obtain ⟨pe, po⟩ := q
        simp only [Option.isSome_some, if_true]
        have h0 : Counts 0 s ((s.noteSync r.idx de.icao at').notePosition de pe at') :=
          { noteSync_counts s r.idx de.icao at' with }
        have hslots := (noteSync_sameSlots s r.idx de.icao at').trans
          (notePosition_sameSlots _ de pe at')
        -- the even frame may go through `onMlat` first, which leaves the sync points alone
        obtain ⟨s1, hs1, h1, h1slots, h1sync⟩ : ∃ s1, (if
            ((s.noteSync r.idx de.icao at').notePosition de pe at').mlatAdsb = true then
              ((s.noteSync r.idx de.icao at').notePosition de pe at').onMlat env now r et em at'
            else (s.noteSync r.idx de.icao at').notePosition de pe at') = s1 ∧
            Counts 0 s s1 ∧ SameSlots s s1 ∧ s1.syncpoints = s.syncpoints := by
          refine ⟨_, rfl, ?_⟩
          split
          · exact ⟨h0.trans (onMlat_counts env _ now r et em at'),
              hslots.trans (onMlat_sameSlots env _ now r et em at'),
              onMlat_syncpoints env _ now r et em at'⟩
          · exact ⟨h0, hslots, rfl⟩
        rw [hs1, ← partners_congr h1slots h1sync now r.idx (em, om), ← Nat.zero_add (2 * _)]
        exact h1.trans (trainSync_counts s1 now r.idx de.icao (em, om) _ _)

theorem removeReceiver_counts (s : State F) (r : RxRef) : Counts 0 s (s.removeReceiver r) := by
  unfold removeReceiver
  split
  · exact Counts.refl s
  · exact { Counts.refl s with
      results := resultsOf_mapVals
        (f := fun _ a => { a with rxMlat := a.rxMlat.erase r.idx, rxSync := a.rxSync.erase r.idx })
        rfl fun _ _ => rfl }

theorem issue_counts (s : State F) (info : ReceiverInfo F) : Counts 0 s (s.issue info).1 := by
  unfold issue takeSlot
  cases s.freeSlots.getLast? with
  | none => exact { Counts.refl s with }
  | some i => exact { Counts.refl s with }

theorem addReceiver_counts (s : State F) (now : Instant) (heard : ℕ → F) (info : ReceiverInfo F) :
    Counts 0 s (s.addReceiver now heard info).1 := by
  rcases addReceiver_cases s now heard info with ⟨-, h⟩ | ⟨user, ⟨-, -, h⟩ | ⟨i, -, -, h⟩⟩
  · rw [h]
    exact Counts.refl s
  · rw [h]
    exact issue_counts s _
  · rw [h]
    exact (removeReceiver_counts s _).trans (issue_counts _ _)

/-- A message other than the export of the state, which expires first. -/
theorem handle_counts (env : Env F) (s : State F) (now : Instant) (heard : ℕ → F)
    {m : ShardMsg F} (hm : m ≠ .stateJson) :
    Counts (s.observations env now m) s (Shard.handle env s now heard m).1 := by
  cases m with
  | addReceiver info => exact addReceiver_counts s now heard info
  | removeReceiver r => exact removeReceiver_counts s r
  | sync r et ot em om at' => exact onSync_counts env s now r et ot em om at'
  | mlat r t m at' => exact onMlat_counts env s now r t m at'
  | clockReset r =>
    have h : (Shard.handle env s now heard (.clockReset r)).1 = s.clockReset r := rfl
    rw [h]
    unfold clockReset
    split
    · exact Counts.refl s
    · exact { Counts.refl s with }
  | receiverStats r =>
    have h : (Shard.handle env s now heard (.receiverStats r)).1 = (s.receiverStats r).1 := rfl
    rw [h]
    unfold receiverStats
    split
    · exact Counts.refl s
    · exact { Counts.refl s with }
  | stats => exact Counts.refl s
  | syncJson => exact Counts.refl s
  | stateJson => exact absurd rfl hm

/-! ## What a solve counts -/

theorem trainBenched_counts (s : State F) (tx : Ecef F) (tTx : F) (b : ℕ × F) :
    Counts 0 s (s.trainBenched tx tTx b) := { Counts.refl s with }

theorem trainAllBenched_counts (s : State F) (a : Attempt F) (sol : Solution F) :
    Counts 0 s (s.trainAllBenched a sol) := by
  unfold trainAllBenched
  split
  · exact Counts.foldl (fun s b => trainBenched_counts s _ _ b) s _
  · exact Counts.refl s

theorem learnOne_counts (withMad : Bool) (s : State F) (o : ℕ × F) :
    Counts 0 s (learnOne withMad s o) := { Counts.refl s with }

theorem learnBias_counts (s : State F) (a : Attempt F) (sol : Solution F) (withMad : Bool) :
    Counts 0 s (s.learnBias a sol withMad) := by
  unfold learnBias
  split
  · exact Counts.foldl (learnOne_counts withMad) s _
  · exact Counts.refl s

theorem smooth_counts (s : State F) (a : Attempt F) (sol : Solution F) :
    Counts 0 s (s.smooth a sol).1 := by
  unfold smooth
  split
  · exact Counts.refl s
  · split
    · exact { Counts.refl s with }
    · exact { Counts.refl s with }

theorem selfTruth_counts (s : State F) (a : Attempt F) (sol : Solution F) :
    Counts 0 s (s.selfTruth a sol).1 := by
  unfold selfTruth
  split
  · exact Counts.refl s
  · simp only
    split
    · split <;> exact learnBias_counts s a sol false
    · exact learnBias_counts s a sol false

theorem noteSpeedReject_counts (s : State F) (icao : Icao) :
    Counts 0 s (s.noteSpeedReject icao) := by
  unfold noteSpeedReject
  simp only
  split
  · refine { Counts.refl s with results := fun k => ?_ }
    unfold resultsOf
    simp only [Finmap.lookup_modify]
    split
    · next hk =>
      rw [hk, Option.map_map]
      rfl
    · rfl
  · exact { Counts.refl s with }

end State

/-- What comes of an attempt. -/
inductive Verdict where
  /-- no solution, or one that a gate refuses -/
  | rejected
  /-- a DF17 attempt that the gates let through: measured against what its aircraft claims, where
      it claimed a position lately -/
  | scored
  | published
  deriving DecidableEq

def Attempt.verdict (a : Attempt F) : Option (Solution F) → Verdict
  | none => .rejected
  | some sol =>
    if (State.judge a sol).isSome then .rejected else if a.isDf17 then .scored else .published

/-- The fixes among what is emitted. -/
def OutMsg.row : OutMsg F → Option (OutRow F)
  | .fix row => some row
  | .selfTruth _ => none

def rowsOf (out : List (OutMsg F)) : List (OutRow F) := out.filterMap OutMsg.row

/-- The fixes of one aircraft. -/
def rowsFor (k : Icao) (out : List (OutMsg F)) : List (OutRow F) :=
  (rowsOf out).filter fun row => decide (row.icao = k)

omit [F64 F] in
theorem length_rowsFor_fix (k : Icao) (row : OutRow F) :
    (rowsFor k [.fix row]).length = if row.icao = k then 1 else 0 := by
  unfold rowsFor rowsOf
  simp only [List.filterMap_cons, OutMsg.row, List.filterMap_nil]
  by_cases hk : row.icao = k
  · rw [if_pos hk, List.filter_cons_of_pos (by simpa using hk)]
    rfl
  · rw [if_neg hk, List.filter_cons_of_neg (by simpa using hk)]
    rfl

/-- What a step that comes to the verdicts `vs` leaves of the counters, `out` being emitted. -/
structure Booked (vs : List Verdict) (out : List (OutMsg F)) (s s' : State F) : Prop where
  solved : s'.statsSolved = s.statsSolved + vs.count .published
  rejected : s'.statsRejected = s.statsRejected + vs.count .rejected
  syncObs : s'.statsSyncObs = s.statsSyncObs
  rows : (rowsOf out).length = vs.count .published
  results : ∀ k, s'.resultsOf k = s.resultsOf k + (rowsFor k out).length

namespace State

section
omit [F64 F]

theorem Counts.booked {s s' s'' : State F} {vs : List Verdict} {out : List (OutMsg F)}
    (h : Counts 0 s s') (h' : Booked vs out s' s'') : Booked vs out s s'' where
  solved := by rw [h'.solved, h.solved]
  rejected := by rw [h'.rejected, h.rejected]
  syncObs := by rw [h'.syncObs, h.syncObs, Nat.add_zero]
  rows := h'.rows
  results k := by rw [h'.results, h.results]

/-- Nothing counted, and no fix emitted. -/
theorem Counts.quiet {s s' : State F} {vs : List Verdict} {out : List (OutMsg F)}
    (h : Counts 0 s s') (hp : vs.count .published = 0) (hr : vs.count .rejected = 0)
    (ho : rowsOf out = []) : Booked vs out s s' where
  solved := by rw [h.solved, hp, Nat.add_zero]
  rejected := by rw [h.rejected, hr, Nat.add_zero]
  syncObs := by rw [h.syncObs, Nat.add_zero]
  rows := by rw [ho, hp, List.length_nil]
  results k := by rw [h.results, rowsFor, ho, List.filter_nil, List.length_nil, Nat.add_zero]

theorem reject_booked (s : State F) : Booked [.rejected] [] s s.reject :=
  ⟨rfl, rfl, rfl, rfl, fun _ => rfl⟩

end

theorem noteFix_resultsOf (s : State F) (a : Attempt F) (sol : Solution F) (k : Icao) :
    (s.noteFix a sol).resultsOf k = s.resultsOf k + if a.icao = k then 1 else 0 := by
  unfold resultsOf noteFix
  simp only [Finmap.lookup_upsert]
  by_cases hk : k = a.icao
  · rw [if_pos hk, if_pos hk.symm, hk]
    cases s.acLog.lookup a.icao with
    | none => rfl
    | some l => rfl
  · rw [if_neg hk, if_neg (Ne.symm hk), Nat.add_zero]

theorem publish_booked (s : State F) (a : Attempt F) (sol : Solution F) :
    Booked [.published] (s.publish a sol).2 s (s.publish a sol).1 := by
  have hlearn := learnBias_counts { s with statsSolved := s.statsSolved + 1 } a sol true
  have hsmooth := smooth_counts
    ((State.learnBias { s with statsSolved := s.statsSolved + 1 } a sol true).noteFix a sol) a sol
  have hstate : (s.publish a sol).1 =
      (((State.learnBias { s with statsSolved := s.statsSolved + 1 } a sol true).noteFix a
        sol).smooth a sol).1 := rfl
  refine ⟨?_, ?_, ?_, rfl, fun k => ?_⟩
  · rw [hstate, hsmooth.solved]
    exact hlearn.solved
  · rw [hstate, hsmooth.rejected]
    exact hlearn.rejected
  · rw [hstate, hsmooth.syncObs]
    exact hlearn.syncObs
  · have hrows : (rowsFor k (s.publish a sol).2).length = if a.icao = k then 1 else 0 :=
      length_rowsFor_fix k _
    rw [hstate, hsmooth.results, noteFix_resultsOf, hlearn.results, hrows]
    rfl

theorem conclude_booked (s : State F) (a : Attempt F) (sol : Option (Solution F)) :
    Booked [a.verdict sol] (s.conclude a sol).2 s (s.conclude a sol).1 := by
  cases sol with
  | none => exact reject_booked s
  | some sol =>
    unfold conclude Attempt.verdict
    simp only
    cases judge a sol with
    | some refusal =>
      cases refusal with
      | tooFast => exact (noteSpeedReject_counts s a.icao).booked (reject_booked _)
      | uncertain | throttled | offTrack => exact reject_booked s
    | none =>
      cases a.isDf17 with
      | false => exact (trainAllBenched_counts s a sol).booked (publish_booked _ a sol)
      | true =>
        refine ((trainAllBenched_counts s a sol).trans (selfTruth_counts _ a sol)).quiet rfl rfl ?_
        -- a DF17 group emits a line of its own kind, if any
        simp only [if_true]
        unfold selfTruth
        simp only
        split
        · rfl
        · split
          · split <;> rfl
          · rfl

end State

namespace Turn

/-- What comes of a turn's attempt, if it makes one. -/
def verdicts (env : Env F) (s : State F) : Turn F → List Verdict
  | .solve now g localRef cluster =>
    ((s.attempted env now g localRef cluster).map fun p => p.1.verdict p.2).toList
  | _ => []

/-- The observations of a turn. -/
def observations (env : Env F) (s : State F) : Turn F → ℕ
  | .msg now _ m => s.observations env now m
  | _ => 0

end Turn

namespace State

theorem solveCluster_booked (env : Env F) (s : State F) (now : Instant) (g : Group F)
    (localRef : ℕ) (cluster : List (Arrival F)) :
    Booked ((Turn.solve now g localRef cluster).verdicts env s)
      (s.solveCluster env now g localRef cluster).2 s
      (s.solveCluster env now g localRef cluster).1 := by
  unfold Turn.verdicts
  simp only
  rcases solveCluster_cases env s now g localRef cluster with
    ⟨ha, ⟨-, hs⟩ | ⟨-, offsets, hs⟩⟩ | ⟨a, sol, offsets, ha, hs⟩
  · rw [ha, hs]
    exact (Counts.refl s).quiet rfl rfl rfl
  · rw [ha, hs]
    have h : Counts 0 s (State.entered { s with stampOffset := offsets } g.icao) :=
      { Counts.refl s with }
    exact h.quiet rfl rfl rfl
  · rw [ha, hs]
    have h : Counts 0 s
        ((State.entered { s with stampOffset := offsets } g.icao).noteAttempt a) :=
      { Counts.refl s with }
    exact h.booked (conclude_booked _ a sol)

theorem expireAt_resultsOf (s : State F) (now : F) {k : Icao} (hk : k ∈ (s.expireAt now).acLog) :
    (s.expireAt now).resultsOf k = s.resultsOf k := by
  obtain ⟨a, ha, hseen⟩ := mem_expireAt.1 hk
  unfold resultsOf
  rw [expireAt_lookup, ha, Option.filter_some, if_pos (decide_eq_true hseen)]
  rfl

end State

/-! ## Every turn -/

/-- What a turn leaves of the counters. -/
structure Turn.Tallies (env : Env F) (s : State F) (t : Turn F) : Prop where
  solved : (t.step env s).statsSolved = s.statsSolved + (t.verdicts env s).count .published
  rejected : (t.step env s).statsRejected = s.statsRejected + (t.verdicts env s).count .rejected
  syncObs : (t.step env s).statsSyncObs = s.statsSyncObs + t.observations env s
  rows : (rowsOf (t.out env s)).length = (t.verdicts env s).count .published
  results : ∀ k, k ∈ (t.step env s).acLog →
    (t.step env s).resultsOf k = s.resultsOf k + (rowsFor k (t.out env s)).length

/-- A pass of expiry counts nothing, and what it leaves keeps its results. -/
theorem State.expireAt_tallies {env : Env F} {s s' : State F} {t : Turn F} (now : F)
    (hstep : State.Counts 0 (s.expireAt now) s') (hs : t.step env s = s')
    (hlogs : ∀ k, k ∈ s'.acLog → k ∈ (s.expireAt now).acLog) (hv : t.verdicts env s = [])
    (ho : t.out env s = []) (hobs : t.observations env s = 0) : t.Tallies env s where
  solved := by rw [hs, hstep.solved, hv]; rfl
  rejected := by rw [hs, hstep.rejected, hv]; rfl
  syncObs := by rw [hs, hstep.syncObs, hobs]; rfl
  rows := by rw [ho, hv]; rfl
  results k hk := by
    rw [hs] at hk ⊢
    rw [hstep.results, State.expireAt_resultsOf s now (hlogs k hk), ho]
    rfl

theorem Turn.tallies (env : Env F) (s : State F) (t : Turn F) : t.Tallies env s := by
  cases t with
  | msg now heard m =>
    by_cases hm : m = .stateJson
    · rw [hm]
      refine State.expireAt_tallies (s.scaledNow now) ?_ rfl (fun k hk => ?_) rfl rfl rfl
      · exact { State.Counts.refl _ with
          results := State.resultsOf_mapVals
            (f := fun _ a => { a with syncGood := a.syncGood * 0.8, syncBad := a.syncBad * 0.8 })
            rfl fun _ _ => rfl }
      · exact Finmap.mem_mapVals.1 hk
    · have h := State.handle_counts env s now heard hm
      exact ⟨h.solved, h.rejected, h.syncObs, rfl, fun k _ => h.results k⟩
  | expire now =>
    by_cases hdue : (expireEveryS : F) ≤ F64.ofNanos (now.since s.lastExpire)
    · have hstep : Turn.step env s (.expire now) =
          State.expireAt { s.expireSyncpoints now with lastExpire := now } (s.scaledNow now) :=
        if_pos hdue
      have hcounts : State.Counts 0 (s.expireAt (s.scaledNow now)) (State.expireAt
          { s.expireSyncpoints now with lastExpire := now } (s.scaledNow now)) :=
        ⟨rfl, rfl, rfl, fun _ => rfl⟩
      exact State.expireAt_tallies (s.scaledNow now) hcounts hstep (fun _ hk => hk) rfl rfl rfl
    · have hstep : Turn.step env s (.expire now) = s.expireSyncpoints now := if_neg hdue
      refine ⟨?_, ?_, ?_, rfl, fun k _ => ?_⟩
      all_goals rw [hstep]; rfl
  | take key => exact ⟨rfl, rfl, rfl, rfl, fun _ _ => rfl⟩
  | solve now g localRef cluster =>
    have h := State.solveCluster_booked env s now g localRef cluster
    exact ⟨h.solved, h.rejected, h.syncObs, h.rows, fun k _ => h.results k⟩

namespace Shard

/-! ## Every run -/

/-- The observations of an event. -/
def Event.observations (env : Env F) (s : State F) : Event F → ℕ
  | .msg now _ m => s.observations env now m
  | .sweep _ _ _ _ => 0

/-- What came of the attempts of a run, in order. -/
def verdicts (env : Env F) (s : State F) (es : List (Event F)) : List Verdict :=
  gather (Turn.step env) (Turn.verdicts env) s (turns env s es)

theorem outs_turns (env : Env F) (s : State F) (es : List (Event F)) :
    Turn.outs env s (turns env s es) = emitted env s es := by
  induction es generalizing s with
  | nil => rfl
  | cons e es ih =>
    obtain ⟨hexec, houts⟩ := Prod.ext_iff.1 (turnsOf_spec env s e)
    simp only at hexec houts
    rw [turns, Turn.outs_append, hexec, houts, ih]
    rfl

theorem exec_tallies (env : Env F) (s : State F) (ts : List (Turn F)) :
    (Run.exec (Turn.step env) s ts).statsSolved =
        s.statsSolved + (gather (Turn.step env) (Turn.verdicts env) s ts).count .published ∧
      (Run.exec (Turn.step env) s ts).statsRejected =
        s.statsRejected + (gather (Turn.step env) (Turn.verdicts env) s ts).count .rejected ∧
      (rowsOf (Turn.outs env s ts)).length =
        (gather (Turn.step env) (Turn.verdicts env) s ts).count .published := by
  induction ts generalizing s with
  | nil => exact ⟨rfl, rfl, rfl⟩
  | cons t ts ih =>
    have h := t.tallies env s
    obtain ⟨ih1, ih2, ih3⟩ := ih (t.step env s)
    refine ⟨?_, ?_, ?_⟩
    · rw [Run.exec_cons, gather, List.count_append, ih1, h.solved, Nat.add_assoc]
    · rw [Run.exec_cons, gather, List.count_append, ih2, h.rejected, Nat.add_assoc]
    · rw [Turn.outs, gather, List.count_append, rowsOf, List.filterMap_append, List.length_append]
      exact congrArg₂ (· + ·) h.rows ih3

/-- No turn of a ready group makes observations. -/
theorem allReadyTurns_observations (env : Env F) (clk : String → ℕ → Instant) (s : State F)
    (keys : List String) :
    ∀ t ∈ allReadyTurns env clk s keys, ∀ s' : State F, t.observations env s' = 0 := by
  induction keys generalizing s with
  | nil => nofun
  | cons key keys ih =>
    intro t ht s'
    rcases List.mem_append.1 ht with h | h
    · cases hg : s.groups.lookup key with
      | none =>
        unfold readyTurns at h
        rw [hg] at h
        cases h
      | some g =>
        rcases readyTurns_ofGroup clk hg t h with ⟨_, rfl⟩ | ⟨_, _, _, rfl⟩
        · rfl
        · rfl
    · exact ih _ t h s'

theorem step_syncObs (env : Env F) (s : State F) (e : Event F) :
    (step env s e).statsSyncObs = s.statsSyncObs + e.observations env s := by
  cases e with
  | msg now heard m => exact (Turn.tallies env s (.msg now heard m)).syncObs
  | sweep now window rank clk =>
    have hexec := (Prod.ext_iff.1 (turnsOf_spec env s (.sweep now window rank clk))).1
    have hzero : ∀ t ∈ turnsOf env s (.sweep now window rank clk), ∀ s' : State F,
        t.observations env s' = 0 := by
      intro t ht
      rcases List.mem_cons.1 ht with rfl | ht
      · exact fun _ => rfl
      · exact allReadyTurns_observations env clk _ _ t ht
    simp only at hexec
    rw [← hexec]
    generalize turnsOf env s (.sweep now window rank clk) = ts at hzero
    clear hexec
    induction ts generalizing s with
    | nil => rfl
    | cons t ts ih =>
      have h := (t.tallies env s).syncObs
      rw [hzero t List.mem_cons_self] at h
      rw [Run.exec_cons]
      exact (ih (t.step env s) fun t' ht' => hzero t' (List.mem_cons_of_mem t ht')).trans h

/-! ## The stats task -/

def Event.isStats : Event F → Bool
  | .msg _ _ .stats => true
  | _ => false

/-- The rates that the stats task stores: at each reply its observations, less those of the reply
    before, as a saturating difference. -/
def rates (env : Env F) : State F → ℕ → List (Event F) → List ℕ
  | _, _, [] => []
  | s, prev, e :: es =>
    if e.isStats then (s.statsSyncObs - prev) :: rates env (step env s e) s.statsSyncObs es
    else rates env (step env s e) prev es

/-- The observations of each window that a stats message ends; `n` are in the first already. -/
def windows (env : Env F) : State F → ℕ → List (Event F) → List ℕ
  | _, _, [] => []
  | s, n, e :: es =>
    if e.isStats then n :: windows env (step env s e) 0 es
    else windows env (step env s e) (n + e.observations env s) es

theorem rates_eq_windows (env : Env F) {s : State F} {prev n : ℕ}
    (h : s.statsSyncObs = prev + n) (es : List (Event F)) :
    rates env s prev es = windows env s n es := by
  induction es generalizing s prev n with
  | nil => rfl
  | cons e es ih =>
    have hstep := step_syncObs env s e
    unfold rates windows
    cases he : e.isStats with
    | true =>
      have hzero : e.observations env s = 0 := by
        unfold Event.isStats at he
        split at he
        · rfl
        · cases he
      rw [hzero] at hstep
      simp only [if_true]
      rw [ih hstep, h, Nat.add_sub_cancel_left]
    | false =>
      simp only [Bool.false_eq_true, if_false]
      exact ih (by rw [hstep, h, Nat.add_assoc])

theorem sum_observations (env : Env F) (s : State F) (es : List (Event F)) :
    (run env s es).statsSyncObs =
      s.statsSyncObs + (gather (step env) (fun s e => [e.observations env s]) s es).sum := by
  induction es generalizing s with
  | nil => rfl
  | cons e es ih =>
    rw [gather, List.sum_append, List.sum_singleton, ← Nat.add_assoc, ← step_syncObs]
    exact ih (step env s e)

theorem length_eq_counts (vs : List Verdict) :
    vs.length = vs.count .published + vs.count .rejected + vs.count .scored := by
  induction vs with
  | nil => rfl
  | cons v vs ih => cases v <;> simp [ih] <;> omega

/-- **The status line tallies.** After every run the fixes it counts are the fixes emitted, every
    attempt is counted as solved or rejected or was a DF17 attempt that the gates let through, its
    observations are those the sync messages made, and the rates that steer the router are the
    observations of each window between two stats messages. -/
theorem counters_tally (env : Env F) (c : Config F) (es : List (Event F)) :
    (run env (boot c) es).statsSolved = (rowsOf (emitted env (boot c) es)).length ∧
    (run env (boot c) es).statsRejected = (verdicts env (boot c) es).count .rejected ∧
    (verdicts env (boot c) es).length = (run env (boot c) es).statsSolved +
      (run env (boot c) es).statsRejected + (verdicts env (boot c) es).count .scored ∧
    (run env (boot c) es).statsSyncObs =
      (gather (step env) (fun s e => [e.observations env s]) (boot c) es).sum ∧
    rates env (boot c) 0 es = windows env (boot c) 0 es := by
  obtain ⟨h1, h2, h3⟩ := exec_tallies env (boot c) (turns env (boot c) es)
  have hsolved : (boot c).statsSolved = 0 := rfl
  have hrejected : (boot c).statsRejected = 0 := rfl
  have hsync : (boot c).statsSyncObs = 0 := rfl
  rw [exec_turns, hsolved, Nat.zero_add] at h1
  rw [exec_turns, hrejected, Nat.zero_add] at h2
  rw [outs_turns] at h3
  refine ⟨h1.trans h3.symm, h2, ?_, ?_, rates_eq_windows env hsync es⟩
  · rw [h1, h2]
    exact length_eq_counts _
  · rw [sum_observations, hsync, Nat.zero_add]

theorem rowsFor_outs (env : Env F) (k : Icao) (s : State F) (ts : List (Turn F)) :
    rowsFor k (Turn.outs env s ts) =
      gather (Turn.step env) (fun s t => rowsFor k (t.out env s)) s ts := by
  induction ts generalizing s with
  | nil => rfl
  | cons t ts ih =>
    rw [Turn.outs, gather, ← ih (t.step env s)]
    unfold rowsFor rowsOf
    rw [List.filterMap_append, List.filter_append]

/-- The export shows the count of the log it has kept. -/
theorem mlatResultCount_eq (s : State F) (now : Instant) {k : Icao} {entry : AircraftEntry F}
    (h : (s.stateJson now).2.2.lookup k = some entry) : entry.mlatResultCount = s.resultsOf k := by
  have hjson : (s.stateJson now).2.2 = (s.expireAt (s.scaledNow now)).acLog.mapVals
      ((s.expireAt (s.scaledNow now)).aircraftEntry (s.scaledNow now)) := rfl
  rw [hjson, Finmap.lookup_mapVals] at h
  obtain ⟨a, ha, rfl⟩ := Option.map_eq_some_iff.1 h
  rw [← State.expireAt_resultsOf s (s.scaledNow now) (Finmap.mem_iff.2 ⟨a, ha⟩)]
  unfold State.resultsOf
  rw [ha]
  rfl

/-- **aircraft.json counts the fixes since the aircraft was last unknown.** Every run has a last
    moment at which the shard does not hold the aircraft, and an export after the run shows as
    `mlat_result_count` the number of fixes emitted for it from there on. -/
theorem results_counted (env : Env F) (c : Config F) (es : List (Event F)) (k : Icao) :
    ∃ ts us, turns env (boot c) es = ts ++ us ∧
      k ∉ (Run.exec (Turn.step env) (boot c) ts).acLog ∧
      (∀ vs, vs ≠ [] → vs <+: us → k ∈ (Run.exec (Turn.step env) (boot c) (ts ++ vs)).acLog) ∧
      ∀ now entry, ((run env (boot c) es).stateJson now).2.2.lookup k = some entry →
        entry.mlatResultCount =
          (rowsFor k (Turn.outs env (Run.exec (Turn.step env) (boot c) ts) us)).length := by
  have hnew : k ∉ (boot c).acLog := Finmap.notMem_empty
  obtain ⟨ts, us, hcut, hout, hin⟩ :=
    exists_since (P := fun s : State F => k ∈ s.acLog) hnew (turns env (boot c) es)
  refine ⟨ts, us, hcut, hout, hin, fun now entry hentry => ?_⟩
  have hzero : (Run.exec (Turn.step env) (boot c) ts).resultsOf k = 0 := by
    unfold State.resultsOf
    rw [Finmap.lookup_eq_none.2 hout]
    rfl
  have hcount := count_gather (P := fun s : State F => k ∈ s.acLog)
    (n := fun s : State F => s.resultsOf k) (f := fun s t => rowsFor k (t.out env s))
    (fun s t h => (t.tallies env s).results k h) (Run.exec (Turn.step env) (boot c) ts)
    (fun vs hne hpre => Run.exec_append _ ts vs ▸ hin vs hne hpre)
  rw [mlatResultCount_eq _ now hentry, rowsFor_outs, ← exec_turns, hcut, Run.exec_append]
  exact hcount.trans (by rw [hzero, Nat.zero_add])

end Shard

end Mlatd
