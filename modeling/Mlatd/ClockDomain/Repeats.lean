/-
  Reports that come twice (state.rs, on_sync).

  The training of a report skips those of its own slot, but the report is stored all the same, so a
  repeated one takes a second place at its sync point and is trained against by everyone who
  reports later. `reporters_distinct_iff` says which runs are free of this: those in which no
  report comes from a slot that is already at its sync point.
-/
import Mlatd.ClockDomain.Training

namespace Mlatd

variable {F : Type} [F64 F]

namespace State

/-! ## Sync points that lose reports -/

/-- No sync point has more reports, or others, or in another order. -/
def Thins (s s' : State F) : Prop := ∀ key, (s'.reportersAt key).Sublist (s.reportersAt key)

namespace Thins

variable {s s' s'' : State F}

section
omit [F64 F]

theorem refl (s : State F) : Thins s s := fun _ => List.Sublist.refl _

theorem trans (h : Thins s s') (h' : Thins s' s'') : Thins s s'' :=
  fun key => (h' key).trans (h key)

theorem of_eq (h : s'.syncpoints = s.syncpoints) : Thins s s' := by
  intro key
  unfold reportersAt
  rw [h]

end

end Thins

section
variable (s : State F)

omit [F64 F] in
theorem forgetPending_thins (rx : ℕ) : Thins s (s.forgetPending rx) := by
  intro key
  unfold reportersAt forgetPending
  simp only
  rw [Finmap.lookup_mapVals]
  cases s.syncpoints.lookup key with
  | none => exact List.Sublist.refl _
  | some sp => exact List.filter_sublist

theorem removeReceiver_thins (r : RxRef) : Thins s (s.removeReceiver r) := by
  unfold removeReceiver
  split
  · exact Thins.refl s
  · exact forgetPending_thins (State.dropPairs { s with alive := s.alive.set r.idx false } r.idx)
      r.idx

omit [F64 F] in
theorem clockReset_thins (r : RxRef) : Thins s (s.clockReset r) := by
  unfold clockReset
  split
  · exact Thins.refl s
  · exact forgetPending_thins (s.dropPairs r.idx) r.idx

theorem issue_syncpoints (info : ReceiverInfo F) :
    (s.issue info).1.syncpoints = s.syncpoints := by
  unfold issue takeSlot
  cases s.freeSlots.getLast? with
  | none => rfl
  | some i => rfl

theorem addReceiver_thins (now : Instant) (heard : ℕ → F) (info : ReceiverInfo F) :
    Thins s (s.addReceiver now heard info).1 := by
  unfold addReceiver
  cases s.identify now heard info with
  | none => exact Thins.refl s
  | some p =>
    obtain ⟨replaced, user⟩ := p
    cases replaced with
    | none => exact Thins.of_eq (issue_syncpoints s { info with user := user })
    | some i =>
      exact (removeReceiver_thins s _).trans
        (Thins.of_eq (issue_syncpoints (s.evict i) { info with user := user }))

theorem expireSyncpoints_thins (now : Instant) : Thins s (s.expireSyncpoints now) := by
  intro key
  unfold reportersAt expireSyncpoints
  simp only
  rw [Finmap.lookup_retain]
  cases s.syncpoints.lookup key with
  | none => exact List.Sublist.refl _
  | some sp =>
    rw [Option.filter_some]
    split
    · exact List.Sublist.refl _
    · exact List.nil_sublist _

theorem expireIfDue_syncpoints (now : Instant) : (s.expireIfDue now).syncpoints = s.syncpoints := by
  unfold expireIfDue
  split
  · rfl
  · rfl

theorem solveAllReady_syncpoints (env : Env F) (clk : String → ℕ → Instant) (s : State F)
    (keys : List String) : (solveAllReady env clk s keys).1.syncpoints = s.syncpoints := by
  induction keys generalizing s with
  | nil => rfl
  | cons key keys ih =>
    have h1 : (s.solveReady env clk key).1.syncpoints = s.syncpoints := by
      rcases solveReady_cases env clk s key with h | h | ⟨g, -, -, h⟩
      · rw [h]
      · rw [h]
        rfl
      · rw [h]
        exact (solveGroup_solves env (s.takeGroup key) (clk key) g).syncpoints
    exact (ih _).trans h1

theorem sweep_thins (env : Env F) (now : Instant) (window : ℕ) (rank : String → ℕ)
    (clk : String → ℕ → Instant) : Thins s (s.sweep env now window rank clk).1 := by
  have h := (expireSyncpoints_thins s now).trans
    (Thins.of_eq (expireIfDue_syncpoints (s.expireSyncpoints now) now))
  exact h.trans (Thins.of_eq (solveAllReady_syncpoints env clk _ _))

/-! ## A report that is taken -/

/-- The message is a report, accepted, of a live receiver, and its sync point has a place. -/
def joins (env : Env F) : Shard.Event F → Option (RxRef × String × String)
  | .msg _ _ (.sync r _ _ em om _) =>
    if s.live r && ((decodeSync env em om).bind fun d =>
          (syncPositions d.1 d.2 : Option (Geodetic F × Geodetic F))).isSome &&
        decide ((s.reportersAt (em, om)).length < maxReporters) then some (r, em, om)
    else none
  | _ => none

/-- The report comes from a slot that is already at its sync point. -/
def repeats (env : Env F) (e : Shard.Event F) : Bool :=
  (s.joins env e).any fun j => (s.reportersAt j.2).any fun q => decide (q.1 = j.1.idx)

/-- A report that joins its sync point takes one of its places. -/
theorem step_of_joins {env : Env F} {e : Shard.Event F} {r : RxRef} {key : String × String}
    (h : s.joins env e = some (r, key)) : (s.reportersAt key).length < maxReporters ∧
      ∃ p : Heard F, p.1 = r.idx ∧ ∀ k, (Shard.step env s e).reportersAt k =
        if k = key then s.reportersAt key ++ [p] else s.reportersAt k := by
  unfold joins at h
  split at h
  · next now heard r' et ot em om at' =>
    split at h
    swap
    · cases h
    next hall =>
    cases h
    simp only [Bool.and_eq_true, decide_eq_true_eq] at hall
    obtain ⟨⟨hl, hacc⟩, hroom⟩ := hall
    obtain ⟨⟨pe, po⟩, h1⟩ := Option.isSome_iff_exists.1 hacc
    obtain ⟨⟨de, do'⟩, hd, hp⟩ := Option.bind_eq_some_iff.1 h1
    obtain ⟨s1, -, -, hsp, hs1⟩ := onSync_eq_trainSync env s now et ot at' hl hd hp
    have hat (k : String × String) : s1.reportersAt k = s.reportersAt k := by
      unfold reportersAt
      rw [hsp]
    have hroom' := (trainSync_of_room s1 now r.idx de.icao (em, om) (s.heardFrom pe po r et ot).2.1
      (s.heardFrom pe po r et ot).2.2 (by rw [hat]; exact hroom)).2
    refine ⟨hroom, s.heardFrom pe po r et ot, rfl, fun k => ?_⟩
    have hstep : Shard.step env s (.msg now heard (.sync r et ot em om at')) =
        s.onSync env now r et ot em om at' := rfl
    rw [hstep, hs1, hroom', hat, hat]
    rfl
  · cases h

/-- Any other sync message leaves the reports at the sync points alone. -/
theorem onSync_of_not_joins {env : Env F} {now : Instant} {heard : ℕ → F} {r : RxRef} {et ot : F}
    {em om : String} {at' : F} (h : s.joins env (.msg now heard (.sync r et ot em om at')) = none)
    (k : String × String) : (s.onSync env now r et ot em om at').reportersAt k =
      s.reportersAt k := by
  by_cases hl : s.live r = true
  · cases hd : decodeSync env em om with
    | none =>
      unfold onSync
      rw [hl, hd]
      rfl
    | some d =>
      obtain ⟨de, do'⟩ := d
      cases hp : (syncPositions de do' : Option (Geodetic F × Geodetic F)) with
      | none =>
        unfold onSync
        rw [hl, hd]
        simp only [Bool.not_true, Bool.false_eq_true, if_false, hp]
        rfl
      | some p =>
        obtain ⟨pe, po⟩ := p
        obtain ⟨s1, -, -, hsp, hs1⟩ := onSync_eq_trainSync env s now et ot at' hl hd hp
        have hat (k : String × String) : s1.reportersAt k = s.reportersAt k := by
          unfold reportersAt
          rw [hsp]
        have hfull : maxReporters ≤ (s1.reportersAt (em, om)).length := by
          unfold joins at h
          simp only [hl, hd, hp, Option.bind_some, Option.isSome_some, Bool.and_true,
            Bool.true_and, decide_eq_true_eq] at h
          rw [hat]
          exact not_lt.1 fun hlt => by
            rw [if_pos hlt] at h
            cases h
        rw [hs1, (trainSync_of_full s1 now r.idx de.icao (em, om) _ _ hfull).2, hat]
  · rw [onSync_of_not_live env (Bool.eq_false_iff.2 hl)]

/-! ## Distinct reporters -/

/-- In every sync point the reporters are different slots, fifteen at most. -/
def DistinctReporters (s : State F) : Prop :=
  ∀ key sp, s.syncpoints.lookup key = some sp →
    (sp.reporters.map Prod.fst).Nodup ∧ sp.reporters.length ≤ maxReporters

omit [F64 F] in
theorem distinctReporters_iff : s.DistinctReporters ↔ ∀ key,
    ((s.reportersAt key).map Prod.fst).Nodup ∧ (s.reportersAt key).length ≤ maxReporters := by
  unfold DistinctReporters reportersAt
  refine forall_congr' fun key => ?_
  cases s.syncpoints.lookup key with
  | none => simp
  | some sp => simp

omit [F64 F] in
theorem Thins.distinctReporters {s s' : State F} (h : Thins s s') (hs : s.DistinctReporters) :
    s'.DistinctReporters := by
  rw [distinctReporters_iff] at hs ⊢
  exact fun key => ⟨((h key).map Prod.fst).nodup (hs key).1, (h key).length_le.trans (hs key).2⟩

/-- A step that is no report that joins its sync point only thins the sync points. -/
theorem step_thins (env : Env F) {e : Shard.Event F} (h : s.joins env e = none) :
    Thins s (Shard.step env s e) := by
  cases e with
  | sweep now window rank clk => exact sweep_thins s env now window rank clk
  | msg now heard m =>
    cases m with
    | addReceiver info => exact addReceiver_thins s now heard info
    | removeReceiver r => exact removeReceiver_thins s r
    | sync r et ot em om at' =>
      intro key
      rw [← onSync_of_not_joins s h key]
      exact List.Sublist.refl _
    | mlat r t m at' => exact Thins.of_eq (onMlat_syncpoints env s now r t m at')
    | clockReset r => exact clockReset_thins s r
    | receiverStats r =>
      refine Thins.of_eq ?_
      unfold Shard.step Shard.handle receiverStats
      simp only
      split
      · rfl
      · rfl
    | stats => exact Thins.refl s
    | syncJson => exact Thins.refl s
    | stateJson => exact Thins.of_eq rfl

/-- Where the reporters are distinct, exactly the repeated reports make them not so. -/
theorem step_distinct_iff (env : Env F) (e : Shard.Event F) (hs : s.DistinctReporters) :
    (Shard.step env s e).DistinctReporters ↔ s.repeats env e = false := by
  cases hj : s.joins env e with
  | none =>
    refine iff_of_true ((step_thins s env hj).distinctReporters hs) ?_
    unfold repeats
    rw [hj]
    rfl
  | some j =>
    obtain ⟨r, key⟩ := j
    obtain ⟨hroom, p, hp, hstep⟩ := step_of_joins s hj
    have hrep : s.repeats env e = false ↔ r.idx ∉ (s.reportersAt key).map Prod.fst := by
      unfold repeats
      rw [hj, ← Bool.not_eq_true, Option.any_some, List.any_eq_true]
      simp only [decide_eq_true_eq, List.mem_map]
    rw [distinctReporters_iff] at hs ⊢
    rw [hrep]
    constructor
    · intro h hmem
      have hkey := (h key).1
      rw [hstep, if_pos rfl, List.map_append, List.nodup_append] at hkey
      exact hkey.2.2 _ hmem _ (List.mem_singleton_self _) hp.symm
    · intro hnot k
      rw [hstep]
      by_cases hk : k = key
      · rw [if_pos hk, List.map_append, List.nodup_append, List.length_append]
        refine ⟨⟨(hs key).1, List.nodup_singleton _, fun a ha b hb hab => ?_⟩, ?_⟩
        · rw [hab, List.mem_singleton.1 hb] at ha
          exact hnot (hp ▸ ha)
        · exact hroom
      · rw [if_neg hk]
        exact hs k

end

end State

/-! ## Runs -/

namespace Shard

/-- The run without the repeated reports. -/
def withoutRepeats (env : Env F) : State F → List (Event F) → List (Event F)
  | _, [] => []
  | s, e :: es =>
    if s.repeats env e then withoutRepeats env s es
    else e :: withoutRepeats env (step env s e) es

theorem withoutRepeats_eq (env : Env F) {s : State F} {es : List (Event F)}
    (h : Run.Steps (step env) (fun s e => s.repeats env e = false) s es) :
    withoutRepeats env s es = es := by
  induction es generalizing s with
  | nil => rfl
  | cons e es ih =>
    have hne : ¬ s.repeats env e = true := Bool.eq_false_iff.1 h.1
    unfold withoutRepeats
    rw [if_neg hne, ih h.2]

/-- **Which runs train every report once**: throughout a run the reporters of every sync point are
    distinct, and the pairs those of the run without repeated reports, exactly when no step of the
    run brings a report from a slot that is already at its sync point. -/
theorem reporters_distinct_iff (env : Env F) (c : Config F) (es : List (Event F)) :
    (∀ n, (run env (boot c) (es.take n)).DistinctReporters ∧
      (run env (boot c) (es.take n)).pairs =
        (run env (boot c) (withoutRepeats env (boot c) (es.take n))).pairs) ↔
      Run.Steps (step env) (fun s e => s.repeats env e = false) (boot c) es := by
  have hboot : (boot c).DistinctReporters := fun key sp h => by cases h
  have hdistinct : (∀ n, (run env (boot c) (es.take n)).DistinctReporters) ↔
      Run.Steps (step env) (fun s e => s.repeats env e = false) (boot c) es :=
    @Run.forall_take_iff_steps _ _ (step env) (fun _ => True) State.DistinctReporters
      (fun _ => True) (fun s e => s.repeats env e = false) (fun _ _ _ _ _ _ => trivial)
      (fun s e _ _ hs => State.step_distinct_iff s env e hs) _ es trivial hboot
      (fun _ _ => trivial)
  constructor
  · intro h
    exact hdistinct.1 fun n => (h n).1
  · intro h n
    refine ⟨hdistinct.2 h n, ?_⟩
    have htake : Run.Steps (step env) (fun s e => s.repeats env e = false) (boot c)
        (es.take n) := by
      have h' := h
      rw [← List.take_append_drop n es, Run.steps_append] at h'
      exact h'.1
    rw [withoutRepeats_eq env htake]

end Shard

/-! ## One receiver says it twice -/

namespace Sample

/-- Slot 0 reports a pair twice, then slot 1 reports it. -/
def saysTwice : List (Shard.Event ℚ) :=
  [arrives 1 "Zero" none, arrives 1 "One" none, hearsAt 0 1 evenFrame, hearsAt 0 1 evenFrame,
    hearsAt 1 2 evenFrame]

end Sample

/-- Slot 0 holds two places of the sync point, and its pair with slot 1 is trained twice. -/
theorem Shard.repeat_trains_twice :
    let s := run Sample.env (boot Sample.config) Sample.saysTwice
    let once := run Sample.env (boot Sample.config)
      (withoutRepeats Sample.env (boot Sample.config) Sample.saysTwice)
    ¬ s.DistinctReporters ∧ s.pairs ≠ once.pairs := by
  intro s once
  constructor
  · intro h
    have h1 := ((State.distinctReporters_iff s).1 h (Sample.evenFrame, Sample.oddFrame)).1
    exact absurd h1 (by decide +kernel)
  · intro h
    have h1 : (s.pairs.lookup (1, 0)).map PairModel.nTotal = some 4 := by decide +kernel
    have h2 : (once.pairs.lookup (1, 0)).map PairModel.nTotal = some 2 := by decide +kernel
    rw [h, h2] at h1
    cases h1

end Mlatd
