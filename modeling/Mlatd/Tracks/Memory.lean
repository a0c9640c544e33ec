/-
  What a shard remembers of one aircraft's flight, as a machine of its own.

  The same history is kept twice: the track (last position, time and attempts, refusals for speed)
  and the fixes of the log. `Memory` is the two together and `Memory.step` what can happen to
  them; `memoryOf_step` says that every turn of a shard does exactly one of these to the memory of
  each aircraft, so what the machine keeps holds in every state of every run (`Memory.Agrees`).
-/
import Mlatd.Tracks.Expiry

namespace Mlatd

variable {F : Type} [F64 F]

/-- What is remembered of an aircraft: its track, if any, and its published fixes. -/
structure Memory (F : Type) where
  track : Option (Track F)
  fixes : List (Fix F)

namespace Memory

/-- What can happen to the memory of an aircraft. -/
inductive Act (F : Type) where
  | idle
  | forget
  /-- a cluster that leads to no attempt, or to none in time -/
  | enter
  /-- an attempt that neither publishes nor is refused for speed -/
  | attempt (gated : Bool) (now : F)
  | tooFast (gated : Bool) (now : F)
  | publish (gated : Bool) (now : F) (pos : Geodetic F) (errM : F)

/-- The track, a default one where there is none. -/
def entry (m : Memory F) : Track F := m.track.getD Track.default

/-- An attempt stamped in its own backoff. -/
def stamped (t : Track F) (gated : Bool) (now : F) : Track F :=
  if gated then { t with lastGatedAttemptScaled := now } else { t with lastAttemptScaled := now }

def step (m : Memory F) : Act F → Memory F
  | .idle => m
  | .forget => ⟨none, []⟩
  | .enter => { m with track := some m.entry }
  | .attempt gated now => { m with track := some (stamped m.entry gated now) }
  | .tooFast gated now =>
    let t := stamped m.entry gated now
    if 5 ≤ t.speedRejects + 1 then ⟨some { t with lastPos := none, speedRejects := 0 }, []⟩
    else { m with track := some { t with speedRejects := t.speedRejects + 1 } }
  | .publish gated now pos errM =>
    ⟨some
      { stamped m.entry gated now with
        lastPos := some pos, lastTimeScaled := now, lastAttemptScaled := now, speedRejects := 0 },
      State.trimFixes now (m.fixes ++ [⟨now, pos, errM⟩])⟩

section
omit [F64 F]

@[simp] theorem stamped_lastPos (t : Track F) (gated : Bool) (now : F) :
    (stamped t gated now).lastPos = t.lastPos := by cases gated <;> rfl

@[simp] theorem stamped_lastTimeScaled (t : Track F) (gated : Bool) (now : F) :
    (stamped t gated now).lastTimeScaled = t.lastTimeScaled := by cases gated <;> rfl

@[simp] theorem stamped_speedRejects (t : Track F) (gated : Bool) (now : F) :
    (stamped t gated now).speedRejects = t.speedRejects := by cases gated <;> rfl

end

/-- The reading of the output clock an act is taken at. -/
def Act.clock : Act F → Option F
  | .attempt _ now | .tooFast _ now | .publish _ now _ _ => some now
  | _ => none

end Memory

/-! ## The memory of each aircraft in a shard -/

/-- What the state remembers of the aircraft `k`. -/
def State.memoryOf (s : State F) (k : Icao) : Memory F := ⟨s.tracks.lookup k, s.fixesOf k⟩

/-- What an attempt on the aircraft comes to. -/
def Attempt.act (a : Attempt F) : Option (Solution F) → Memory.Act F
  | none => .attempt a.gate.isSome a.nowScaled
  | some sol =>
    match State.judge a sol with
    | some .tooFast => .tooFast a.gate.isSome a.nowScaled
    | some _ => .attempt a.gate.isSome a.nowScaled
    | none =>
      if a.isDf17 then .attempt a.gate.isSome a.nowScaled
      else .publish a.gate.isSome a.nowScaled sol.pos (fixErrM sol)

/-- The turn runs an expiry pass. -/
def Turn.expires (s : State F) : Turn F → Bool
  | .msg _ _ .stateJson => true
  | .expire now => decide ((expireEveryS : F) ≤ F64.ofNanos (now.since s.lastExpire))
  | _ => false

/-- What a turn does to the memory of the aircraft `k`. -/
def Turn.act (env : Env F) (s : State F) (k : Icao) (t : Turn F) : Memory.Act F :=
  match t with
  | .solve now g localRef cluster =>
    if g.icao ≠ k then .idle
    else if (s.selectObs cluster).used.length < 4 then .idle
    else
      match s.attempted env now g localRef cluster with
      | none => .enter
      | some (a, sol) => a.act sol
  | t => if t.expires s = true ∧ k ∉ (t.step env s).acLog then .forget else .idle

/-- An attempt acts at its own time. -/
theorem Attempt.act_clock (a : Attempt F) {sol : Option (Solution F)} {x : F}
    (h : (a.act sol).clock = some x) : a.nowScaled = x := by
  cases sol with
  | none => exact Option.some.inj h
  | some sol =>
    unfold Attempt.act at h
    simp only at h
    cases hj : State.judge a sol with
    | some refusal =>
      rw [hj] at h
      cases refusal with
      | tooFast | uncertain | throttled | offTrack => exact Option.some.inj h
    | none =>
      rw [hj] at h
      simp only at h
      split at h
      · exact Option.some.inj h
      · exact Option.some.inj h

namespace State

omit [F64 F] in
theorem memoryOf_congr {s s' : State F} {k : Icao} (ht : s'.tracks.lookup k = s.tracks.lookup k)
    (hl : s'.acLog.lookup k = s.acLog.lookup k) : s'.memoryOf k = s.memoryOf k := by
  unfold memoryOf fixesOf
  rw [ht, hl]

theorem Hears.memoryOf {s s' : State F} (h : Hears s s') (k : Icao) :
    s'.memoryOf k = s.memoryOf k := by
  unfold State.memoryOf
  rw [h.tracks, h.fixes]

theorem SameMaps.memoryOf {s s' : State F} (h : SameMaps s s') (k : Icao) :
    s'.memoryOf k = s.memoryOf k :=
  memoryOf_congr (by rw [h.tracks]) (by rw [h.acLog])

/-! ## An expiry pass -/

theorem expireAt_memoryOf (s : State F) (now : F) (k : Icao) :
    (s.expireAt now).memoryOf k =
      if k ∈ (s.expireAt now).acLog then s.memoryOf k else ⟨none, []⟩ := by
  split
  · next hk =>
    obtain ⟨a, ha, hseen⟩ := mem_expireAt.1 hk
    have ht : (s.expireAt now).tracks.lookup k = s.tracks.lookup k :=
      lookup_heard s now s.tracks k hk
    have hf : (s.expireAt now).fixesOf k = s.fixesOf k := by
      unfold fixesOf
      rw [expireAt_lookup, ha, Option.filter_some, if_pos (decide_eq_true hseen)]
      rfl
    unfold memoryOf
    rw [ht, hf]
  · next hk =>
    have ht : (s.expireAt now).tracks.lookup k = none :=
       Finmap.lookup_eq_none.2 fun h => hk (mem_heard s now s.tracks k h)
    unfold memoryOf fixesOf
    rw [ht, Finmap.lookup_eq_none.2 hk]
    rfl

/-! ## An attempt -/

section
variable (s : State F) (a : Attempt F) (sol : Solution F)

omit [F64 F] in
theorem noteAttempt_memoryOf {t : Track F} (h : s.tracks.lookup a.icao = some t) :
    (s.noteAttempt a).memoryOf a.icao =
      ⟨some (Memory.stamped t a.gate.isSome a.nowScaled), s.fixesOf a.icao⟩ := by
  have h1 : (s.noteAttempt a).tracks.lookup a.icao =
      some (Memory.stamped t a.gate.isSome a.nowScaled) := by
    unfold noteAttempt
    simp only
    rw [Finmap.lookup_modify, if_pos rfl, h]
    rfl
  unfold memoryOf
  rw [h1]
  rfl

theorem noteSpeedReject_memoryOf {t : Track F} {icao : Icao}
    (h : s.tracks.lookup icao = some t) :
    (s.noteSpeedReject icao).memoryOf icao =
      if 5 ≤ t.speedRejects + 1 then ⟨some { t with lastPos := none, speedRejects := 0 }, []⟩
      else ⟨some { t with speedRejects := t.speedRejects + 1 }, s.fixesOf icao⟩ := by
  unfold noteSpeedReject memoryOf fixesOf
  simp only [h, Option.getD_some]
  split
  · simp only [Finmap.lookup_modify, if_pos, h, Option.map_some]
    cases s.acLog.lookup icao with
    | none => rfl
    | some l => rfl
  · simp only [Finmap.lookup_modify, if_pos, h, Option.map_some]

theorem noteFix_memoryOf {t : Track F} (h : s.tracks.lookup a.icao = some t) :
    (s.noteFix a sol).memoryOf a.icao =
      ⟨some
        { t with
          lastPos := some sol.pos, lastTimeScaled := a.nowScaled
          lastAttemptScaled := a.nowScaled, speedRejects := 0 },
        trimFixes a.nowScaled (s.fixesOf a.icao ++ [⟨a.nowScaled, sol.pos, fixErrM sol⟩])⟩ := by
  unfold noteFix memoryOf fixesOf
  simp only [Finmap.lookup_modify, Finmap.lookup_upsert, if_pos, h, Option.map_some,
    Option.getD_some]
  cases s.acLog.lookup a.icao with
  | none => rfl
  | some l => rfl

theorem smooth_memoryOf (k : Icao) : (s.smooth a sol).1.memoryOf k = s.memoryOf k := by
  unfold smooth
  split
  · rfl
  · split
    · rfl
    · rfl

/-- What follows from the solve of an attempt, for the memory of its aircraft. -/
theorem conclude_memoryOf (sol : Option (Solution F)) {m : Memory F}
    (h : s.memoryOf a.icao =
      ⟨some (Memory.stamped m.entry a.gate.isSome a.nowScaled), m.fixes⟩) :
    (s.conclude a sol).1.memoryOf a.icao = m.step (a.act sol) := by
  have ht : s.tracks.lookup a.icao = some (Memory.stamped m.entry a.gate.isSome a.nowScaled) :=
    congrArg Memory.track h
  have hf : s.fixesOf a.icao = m.fixes := congrArg Memory.fixes h
  cases sol with
  | none => exact h
  | some sol =>
    unfold conclude Attempt.act
    simp only
    cases judge a sol with
    | some refusal =>
      cases refusal with
      | tooFast =>
        have h1 : (s.noteSpeedReject a.icao).reject.memoryOf a.icao =
            (s.noteSpeedReject a.icao).memoryOf a.icao := rfl
        simp only
        rw [h1, noteSpeedReject_memoryOf s ht, hf]
        rfl
      | uncertain | throttled | offTrack => exact h
    | none =>
      have hs := trainAllBenched_sameMaps s a sol
      simp only
      split
      · exact ((hs.trans (selfTruth_sameMaps _ a sol)).memoryOf a.icao).trans h
      · obtain ⟨t, hst, hp⟩ := publish_eq (s.trainAllBenched a sol) a sol
        have hst := hs.trans hst
        have htt : t.tracks.lookup a.icao = _ :=
          (congrArg (Finmap.lookup a.icao) hst.tracks).trans ht
        have hft : t.fixesOf a.icao = m.fixes := by
          rw [← hf]
          unfold fixesOf
          rw [hst.acLog]
        rw [hp, smooth_memoryOf, noteFix_memoryOf t a sol htt, hft]
        rfl

end

theorem entered_memoryOf (s : State F) (offsets : HashMap ℕ F) {icao k : Icao} (h : icao = k) :
    (State.entered { s with stampOffset := offsets } icao).memoryOf k =
      ⟨some (s.memoryOf k).entry, (s.memoryOf k).fixes⟩ := by
  have ht : (State.entered { s with stampOffset := offsets } icao).tracks.lookup k =
      some (s.memoryOf k).entry := by
    rw [h]
    exact Finmap.lookup_insert _
  unfold memoryOf at ht ⊢
  rw [ht]
  rfl

/-- A call on a cluster of the aircraft `k`. -/
theorem solveCluster_memoryOf (env : Env F) (s : State F) (now : Instant) (g : Group F)
    (localRef : ℕ) (cluster : List (Arrival F)) (k : Icao) :
    (s.solveCluster env now g localRef cluster).1.memoryOf k =
      (s.memoryOf k).step (Turn.act env s k (.solve now g localRef cluster)) := by
  unfold Turn.act
  simp only
  by_cases hk : g.icao = k
  · rw [if_neg (not_not.2 hk)]
    rcases solveCluster_cases env s now g localRef cluster with
      ⟨hnone, ⟨hlen, h⟩ | ⟨hlen, offsets, h⟩⟩ | ⟨a, sol, offsets, ha, h⟩
    · rw [h, if_pos hlen]
      rfl
    · rw [h, if_neg (not_lt.2 hlen), hnone]
      exact entered_memoryOf s offsets hk
    · obtain ⟨made, -, -⟩ := made_of_attempted ha
      have hlen : ¬ (s.selectObs cluster).used.length < 4 := not_lt.2 made.enough
      have hka : a.icao = k := made.icao.trans hk
      have he := entered_memoryOf s offsets hk
      rw [h, if_neg hlen, ha]
      simp only
      rw [← hka] at he ⊢
      refine conclude_memoryOf _ a sol ?_
      have ht : (State.entered { s with stampOffset := offsets } g.icao).tracks.lookup a.icao = _ :=
        congrArg Memory.track he
      rw [noteAttempt_memoryOf _ a ht]
      exact congrArg (Memory.mk _) (congrArg Memory.fixes he)
  · have h := solveCluster_concerns env s now g localRef cluster
    rw [if_pos hk]
    exact memoryOf_congr (h.tracks k (Ne.symm hk)) (h.acLog k (Ne.symm hk))

end State

namespace Turn

/-! ## Every turn -/

section
variable (env : Env F) (s : State F) (k : Icao) {t : Turn F}

/-- A turn whose pass takes an aircraft out with its log, and that does nothing else to it. -/
theorem memoryOf_pass
    (hact : t.act env s k =
      if t.expires s = true ∧ k ∉ (t.step env s).acLog then .forget else .idle)
    (h : (t.step env s).memoryOf k =
      if t.expires s = true ∧ k ∉ (t.step env s).acLog then ⟨none, []⟩ else s.memoryOf k) :
    (t.step env s).memoryOf k = (s.memoryOf k).step (t.act env s k) := by
  rw [hact, h]
  split
  · rfl
  · rfl

theorem expires_false_of_msg {now : Instant} {heard : ℕ → F} {m : ShardMsg F}
    (hm : m ≠ .stateJson) : (Turn.msg now heard m).expires s = false := by
  cases m with
  | stateJson => exact absurd rfl hm
  | _ => rfl

/-- Every turn is an act on the memory of each aircraft. -/
theorem memoryOf_step (t : Turn F) :
    (t.step env s).memoryOf k = (s.memoryOf k).step (t.act env s k) := by
  cases t with
  | msg now heard m =>
    apply memoryOf_pass env s k rfl
    by_cases hm : m = .stateJson
    · rw [hm]
      have h : (Turn.step env s (.msg now heard .stateJson)).memoryOf k =
          (s.expireAt (s.scaledNow now)).memoryOf k := (State.decayCounters_hears _).memoryOf k
      have hk : k ∈ (Turn.step env s (.msg now heard .stateJson)).acLog ↔
          k ∈ (s.expireAt (s.scaledNow now)).acLog := Finmap.mem_mapVals
      rw [h, State.expireAt_memoryOf]
      simp only [expires, hk, true_and, ite_not]
    · simp only [expires_false_of_msg s hm, Bool.false_eq_true, false_and, if_false]
      exact (State.handle_hears env s now heard hm).memoryOf k
  | expire now =>
    apply memoryOf_pass env s k rfl
    by_cases hdue : (expireEveryS : F) ≤ F64.ofNanos (now.since s.lastExpire)
    · have hstep : Turn.step env s (.expire now) =
          State.expireAt { s.expireSyncpoints now with lastExpire := now } (s.scaledNow now) :=
        if_pos hdue
      rw [hstep, State.expireAt_memoryOf]
      simp only [expires, hdue, decide_true, true_and, ite_not]
      rfl
    · have hstep : Turn.step env s (.expire now) = s.expireSyncpoints now := if_neg hdue
      rw [hstep]
      simp only [expires, hdue, decide_false, Bool.false_eq_true, false_and, if_false]
      rfl
  | take key => exact memoryOf_pass env s k rfl rfl
  | solve now g localRef cluster => exact State.solveCluster_memoryOf env s now g localRef cluster k

end

theorem scaledNow_step (env : Env F) (s : State F) (t : Turn F) (now : Instant) :
    (t.step env s).scaledNow now = s.scaledNow now := by
  cases t with
  | msg now' heard m =>
    by_cases hm : m = .stateJson
    · rw [hm]
      rfl
    · exact (State.handle_hears env s now' heard hm).clock now
  | expire now' =>
    simp only [step, State.expireIfDue]
    split
    · rfl
    · rfl
  | take key => rfl
  | solve now' g localRef cluster =>
    exact (State.solveCluster_concerns env s now' g localRef cluster).clock now

/-- The readings of the output clock that a run of turns takes. -/
def readings (s : State F) (ts : List (Turn F)) : List F :=
  (ts.filterMap Turn.clock).map s.scaledNow

theorem readings_step (env : Env F) (s : State F) (t : Turn F) (ts : List (Turn F)) :
    readings (t.step env s) ts = readings s ts := by
  have h : (t.step env s).scaledNow = s.scaledNow := funext (scaledNow_step env s t)
  unfold readings
  rw [h]

theorem mem_readings_cons (s : State F) {t : Turn F} {ts : List (Turn F)} {x : F} :
    x ∈ readings s (t :: ts) ↔ t.clock.map s.scaledNow = some x ∨ x ∈ readings s ts := by
  unfold readings
  cases h : t.clock with
  | none => simp [h]
  | some now => simp [h, eq_comm]

/-- The act of a turn is taken at the turn's reading. -/
theorem act_clock (env : Env F) (s : State F) (t : Turn F) (k : Icao) {x : F}
    (h : (t.act env s k).clock = some x) : t.clock.map s.scaledNow = some x := by
  have hother : ∀ {p : Prop} [Decidable p], (if p then Memory.Act.forget else .idle).clock ≠
      some x := by
    intro p _
    split
    · nofun
    · nofun
  cases t with
  | msg now heard m => exact absurd h hother
  | expire now => exact absurd h hother
  | take key =>
    have h1 : (Turn.take key).act env s k = .idle := rfl
    rw [h1] at h
    cases h
  | solve now g localRef cluster =>
    unfold act at h
    simp only at h
    split at h
    · cases h
    · split at h
      · cases h
      · cases ha : s.attempted env now g localRef cluster with
        | none =>
          rw [ha] at h
          cases h
        | some p =>
          obtain ⟨a, sol⟩ := p
          rw [ha] at h
          rw [← (State.made_of_attempted ha).1.nowScaled.symm.trans (a.act_clock h)]
          rfl

end Turn

end Mlatd
