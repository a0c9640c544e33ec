/-
  The maps that remember aircraft, and what leaves them (state.rs, expire_at).

  Only the log of an aircraft carries a time. `Logged`: whatever else is remembered of an aircraft
  has a log beside it. A message keeps this by itself (`Hears`), a solve when the log of its
  aircraft is still there (`Turn.inTime`), and expiry takes an aircraft out of all maps at once.
  `Expired` says what one expiry pass leaves, in any state.
-/
import Mlatd.Registry.SweepFrame
import Mlatd.Sample
import Mlatd.Tracks.Attempt

namespace Mlatd

variable {F : Type} [F64 F]

namespace State

/-! ## What a message does to the maps -/

/-- No fix and no track changes, no log goes, and an aircraft newly remembered has a log. -/
structure Hears (s s' : State F) : Prop where
  tracks : s'.tracks = s.tracks
  filters : s'.filters = s.filters
  fixes : ∀ k, s'.fixesOf k = s.fixesOf k
  logs : ∀ k, k ∈ s.acLog → k ∈ s'.acLog
  altsFt : ∀ k, k ∈ s'.altsFt → k ∈ s.altsFt ∨ k ∈ s'.acLog
  adsbPos : ∀ k, k ∈ s'.adsbPos → k ∈ s.adsbPos ∨ k ∈ s'.acLog
  clock : ∀ now, s'.scaledNow now = s.scaledNow now

namespace Hears

theorem refl (s : State F) : Hears s s :=
  ⟨rfl, rfl, fun _ => rfl, fun _ h => h, fun _ h => Or.inl h, fun _ h => Or.inl h, fun _ => rfl⟩

theorem trans {s s' s'' : State F} (h : Hears s s') (h' : Hears s' s'') : Hears s s'' where
  tracks := h'.tracks.trans h.tracks
  filters := h'.filters.trans h.filters
  fixes k := (h'.fixes k).trans (h.fixes k)
  logs k hk := h'.logs k (h.logs k hk)
  altsFt k hk := (h'.altsFt k hk).elim (fun h1 => (h.altsFt k h1).imp_right (h'.logs k)) Or.inr
  adsbPos k hk := (h'.adsbPos k hk).elim (fun h1 => (h.adsbPos k h1).imp_right (h'.logs k)) Or.inr
  clock now := (h'.clock now).trans (h.clock now)

theorem foldl {α : Type} {f : State F → α → State F} (hf : ∀ s a, Hears s (f s a))
    (s : State F) (as : List α) : Hears s (as.foldl f s) := by
  induction as generalizing s with
  | nil => exact refl s
  | cons a as ih => exact (hf s a).trans (ih (f s a))

end Hears

/-- An update of one log that keeps its fixes keeps those of every aircraft. -/
theorem fixesOf_upsert {s s' : State F} {icao : Icao} {f : AcLog F → AcLog F}
    (hs : s'.acLog = s.acLog.upsert icao AcLog.default f) (hf : ∀ a, (f a).fixes = a.fixes)
    (k : Icao) : s'.fixesOf k = s.fixesOf k := by
  unfold fixesOf
  rw [hs, Finmap.lookup_upsert]
  by_cases hk : k = icao
  · rw [if_pos hk, Option.map_some, Option.getD_some, hf, hk]
    cases s.acLog.lookup icao with
    | none => rfl
    | some a => rfl
  · rw [if_neg hk]

omit [F64 F] in
/-- An update of every log that keeps their fixes. -/
theorem fixesOf_mapVals {s s' : State F} {f : Icao → AcLog F → AcLog F}
    (hs : s'.acLog = s.acLog.mapVals f) (hf : ∀ k a, (f k a).fixes = a.fixes) (k : Icao) :
    s'.fixesOf k = s.fixesOf k := by
  unfold fixesOf
  rw [hs, Finmap.lookup_mapVals, Option.map_map]
  cases s.acLog.lookup k with
  | none => rfl
  | some a => exact hf k a

/-- An altitude and a report of its aircraft noted together. -/
theorem noteMlat_hears (s : State F) {alts : HashMap Icao ℤ} (rx : ℕ) {icao : Icao} (t : F)
    (h : ∀ k, k ∈ alts → k = icao ∨ k ∈ s.altsFt) :
    Hears s (State.noteMlat { s with altsFt := alts } rx icao t) := by
  refine
    { Hears.refl s with
      fixes := fixesOf_upsert (noteMlat_acLog _ rx icao t) fun _ => rfl
      adsbPos := fun _ => Or.inl
      logs := fun k hk => ?_
      altsFt := ?_ }
  · exact Finmap.mem_upsert.2 (Or.inr hk)
  · intro k hk
    exact (h k hk).elim (fun h1 => Or.inr (Finmap.mem_upsert.2 (Or.inl h1))) Or.inl

theorem joinGroup_hears (s : State F) (now : Instant) (rx : ℕ) (icao : Icao) (m : List UInt8)
    (mHex : String) (tS at' : F) : Hears s (s.joinGroup now rx icao m mHex tS at') :=
  { Hears.refl s with }

theorem onMlat_hears (env : Env F) (s : State F) (now : Instant) (r : RxRef) (t : F)
    (m : String) (at' : F) : Hears s (s.onMlat env now r t m at') := by
  rcases onMlat_cases env s now r t m at' with h | ⟨-, icao, alts, raw, tS, halts, h⟩
  · rw [h]
    exact Hears.refl s
  · rw [h]
    exact (noteMlat_hears s r.idx at' halts).trans (joinGroup_hears _ _ _ _ _ _ _ _)

theorem noteSync_hears (s : State F) (rx : ℕ) (icao : Icao) (t : F) :
    Hears s (s.noteSync rx icao t) :=
  { Hears.refl s with
    altsFt := fun _ => Or.inl
    adsbPos := fun _ => Or.inl
    fixes := fixesOf_upsert (noteSync_acLog s rx icao t) fun _ => rfl
    logs := fun _ hk => Finmap.mem_upsert.2 (Or.inr hk) }

theorem noteSync_logs (s : State F) (rx : ℕ) (icao : Icao) (t : F) :
    icao ∈ (s.noteSync rx icao t).acLog :=
  Finmap.mem_upsert.2 (Or.inl rfl)

/-- A claimed position of an aircraft that has a log. -/
theorem notePosition_hears (s : State F) (de : Df17Airborne) (pe : Geodetic F) (t : F)
    (h : de.icao ∈ s.acLog) : Hears s (s.notePosition de pe t) := by
  refine { Hears.refl s with altsFt := fun k hk => ?_, adsbPos := fun k hk => ?_ }
  · unfold notePosition at hk
    cases ha : de.altFt with
    | none =>
      rw [ha] at hk
      exact Or.inl hk
    | some alt =>
      rw [ha] at hk
      rcases Finmap.mem_insert.1 hk with rfl | h1
      · exact Or.inr h
      · exact Or.inl h1
  · rcases Finmap.mem_insert.1 hk with rfl | h1
    · exact Or.inr h
    · exact Or.inl h1

theorem pushPair_hears (s : State F) (a b : ℕ) (ta tb : F) : Hears s (s.pushPair a b ta tb).1 :=
  { Hears.refl s with }

theorem countSync_hears (s : State F) (rx : ℕ) (icao : Icao) (ok : Bool) :
    Hears s (s.countSync rx icao ok) :=
  { Hears.refl s with
    altsFt := fun _ => Or.inl
    adsbPos := fun _ => Or.inl
    fixes := fixesOf_upsert (countSync_acLog s rx icao ok) fun _ => by cases ok <;> rfl
    logs := fun _ hk => Finmap.mem_upsert.2 (Or.inr hk) }

theorem trainOnce_hears (s : State F) (icao : Icao) (rx rx2 : ℕ) (ta tb : F) :
    Hears s (s.trainOnce icao rx rx2 ta tb) :=
  ((pushPair_hears s rx rx2 ta tb).trans (pushPair_hears _ rx2 rx tb ta)).trans
    (countSync_hears _ rx icao _)

theorem trainPair_hears (icao : Icao) (rx : ℕ) (te to' : F) (s : State F)
    (other : ℕ × F × F) : Hears s (trainPair icao rx te to' s other) := by
  obtain ⟨rx2, te2, to2⟩ := other
  simp only [trainPair]
  split
  · exact Hears.refl s
  · exact (trainOnce_hears _ _ _ _ _ _).trans (trainOnce_hears _ _ _ _ _ _)

theorem trainSync_hears (s : State F) (now : Instant) (rx : ℕ) (icao : Icao)
    (key : String × String) (te to' : F) : Hears s (s.trainSync now rx icao key te to') := by
  simp only [trainSync]
  split
  · exact { Hears.refl s with }
  · refine Hears.trans ?_ (Hears.foldl (trainPair_hears icao rx te to') _ _)
    exact { Hears.refl s with }

theorem onSync_hears (env : Env F) (s : State F) (now : Instant) (r : RxRef) (et ot : F)
    (em om : String) (at' : F) : Hears s (s.onSync env now r et ot em om at') := by
  rcases onSync_cases env s now r et ot em om at' with
    h | ⟨-, icao, h | ⟨de, pe, te, to', s1, hde, h1, h⟩⟩
  · rw [h]
    exact Hears.refl s
  · rw [h]
    exact noteSync_hears s _ _ _
  · rw [h]
    refine Hears.trans ?_ (trainSync_hears _ _ _ _ _ _ _)
    have h2 := (noteSync_hears s r.idx icao at').trans (notePosition_hears _ de pe at'
      (hde ▸ noteSync_logs s r.idx icao at'))
    rcases h1 with rfl | rfl
    · exact h2
    · exact h2.trans (onMlat_hears _ _ _ _ _ _ _)

theorem dropSlotLogs_hears (s : State F) (rx : ℕ) : Hears s (s.dropSlotLogs rx) :=
  { Hears.refl s with
    altsFt := fun _ => Or.inl
    adsbPos := fun _ => Or.inl
    fixes := fixesOf_mapVals
      (f := fun _ a => { a with rxMlat := a.rxMlat.erase rx, rxSync := a.rxSync.erase rx }) rfl
      fun _ _ => rfl
    logs := fun _ hk => Finmap.mem_mapVals.2 hk }

theorem freeSlot_hears (s : State F) (rx : ℕ) : Hears s (s.freeSlot rx) :=
  { Hears.refl s with }

theorem removeReceiver_hears (s : State F) (r : RxRef) : Hears s (s.removeReceiver r) := by
  unfold removeReceiver
  split
  · exact Hears.refl s
  · have h1 : Hears s
        ((State.dropPairs { s with alive := s.alive.set r.idx false } r.idx).forgetPending r.idx) :=
      { Hears.refl s with }
    exact (h1.trans (dropSlotLogs_hears _ r.idx)).trans (freeSlot_hears _ r.idx)

theorem clockReset_hears (s : State F) (r : RxRef) : Hears s (s.clockReset r) := by
  unfold clockReset
  split
  · exact Hears.refl s
  · exact { Hears.refl s with }

theorem issue_hears (s : State F) (info : ReceiverInfo F) : Hears s (s.issue info).1 := by
  unfold issue takeSlot
  cases s.freeSlots.getLast? with
  | none => exact { Hears.refl s with }
  | some i => exact { Hears.refl s with }

theorem addReceiver_hears (s : State F) (now : Instant) (heard : ℕ → F) (info : ReceiverInfo F) :
    Hears s (s.addReceiver now heard info).1 := by
  unfold addReceiver
  split
  · exact Hears.refl s
  · next replaced user _ =>
    cases replaced with
    | none => exact issue_hears s _
    | some i => exact (removeReceiver_hears s _).trans (issue_hears _ _)

theorem receiverStats_hears (s : State F) (r : RxRef) : Hears s (s.receiverStats r).1 := by
  unfold receiverStats
  split
  · exact Hears.refl s
  · exact { Hears.refl s with }

theorem decayCounters_hears (s : State F) : Hears s s.decayCounters :=
  { Hears.refl s with
    altsFt := fun _ => Or.inl
    adsbPos := fun _ => Or.inl
    fixes := fixesOf_mapVals
      (f := fun _ a => { a with syncGood := a.syncGood * 0.8, syncBad := a.syncBad * 0.8 }) rfl
      fun _ _ => rfl
    logs := fun _ hk => Finmap.mem_mapVals.2 hk }

/-- A message other than the export of the state, which expires first. -/
theorem handle_hears (env : Env F) (s : State F) (now : Instant) (heard : ℕ → F)
    {m : ShardMsg F} (hm : m ≠ .stateJson) : Hears s (Shard.handle env s now heard m).1 := by
  cases m with
  | addReceiver info => exact addReceiver_hears s now heard info
  | removeReceiver r => exact removeReceiver_hears s r
  | sync r et ot em om at' => exact onSync_hears env s now r et ot em om at'
  | mlat r t m at' => exact onMlat_hears env s now r t m at'
  | clockReset r => exact clockReset_hears s r
  | receiverStats r => exact receiverStats_hears s r
  | stats => exact Hears.refl s
  | syncJson => exact Hears.refl s
  | stateJson => exact absurd rfl hm

/-! ## What an expiry pass leaves -/

/-- The log of an aircraft after a pass: gone, or less its stale interest. -/
theorem expireAt_lookup (s : State F) (now : F) (k : Icao) :
    (s.expireAt now).acLog.lookup k =
      ((s.acLog.lookup k).filter fun a => decide (now - a.seen < acExpireS)).map fun a =>
        { a with
          rxMlat := a.rxMlat.retain fun rx t => isFresh now t && s.isAlive rx
          rxSync := a.rxSync.retain fun rx t => isFresh now t && s.isAlive rx } := by
  unfold expireAt
  simp only [Finmap.lookup_mapVals, Finmap.lookup_retain]

theorem mem_expireAt {s : State F} {now : F} {k : Icao} :
    k ∈ (s.expireAt now).acLog ↔ ∃ a, s.acLog.lookup k = some a ∧ now - a.seen < acExpireS := by
  rw [Finmap.mem_iff, expireAt_lookup]
  simp [Option.filter_eq_some_iff]

section
variable {V : Type} (s : State F) (now : F) (m : HashMap Icao V) (k : Icao)

/-- A map that a pass goes through by the rule of the logs. -/
theorem lookup_heard (h : k ∈ (s.expireAt now).acLog) :
    (m.retain fun k _ => ((s.expireAt now).acLog.lookup k).isSome).lookup k = m.lookup k := by
  rw [Finmap.lookup_retain, Finmap.mem_iff_isSome.1 h]
  cases m.lookup k with
  | none => rfl
  | some v => rfl

theorem mem_heard (h : k ∈ m.retain fun k _ => ((s.expireAt now).acLog.lookup k).isSome) :
    k ∈ (s.expireAt now).acLog := by
  obtain ⟨-, -, h1⟩ := Finmap.mem_retain.1 h
  exact Finmap.mem_iff_isSome.2 h1

end

/-- What a pass at `now` leaves of `s`. -/
structure Expired (s : State F) (now : F) (s' : State F) : Prop where
  /-- every aircraft in some map was heard within `acExpireS` -/
  heard : ∀ k, k ∈ s'.acLog ∨ k ∈ s'.altsFt ∨ k ∈ s'.adsbPos ∨ k ∈ s'.tracks ∨ k ∈ s'.filters →
    ∃ a, s'.acLog.lookup k = some a ∧ now - a.seen < acExpireS
  /-- the interest of live receivers is fresh -/
  rxInterest : ∀ i log, s'.rxLog[i]? = some log → s'.isAlive i = true → ∀ k t,
    log.sync.lookup k = some t ∨ log.mlat.lookup k = some t → now - t < interestS
  /-- the interest in an aircraft is of live receivers, and fresh -/
  acInterest : ∀ k a, s'.acLog.lookup k = some a → ∀ i t,
    a.rxSync.lookup i = some t ∨ a.rxMlat.lookup i = some t →
      s'.isAlive i = true ∧ now - t < interestS
  /-- an aircraft heard within `acExpireS` stays in every map it is in -/
  keeps : ∀ k a, s.acLog.lookup k = some a → now - a.seen < acExpireS →
    (∃ m m', s'.acLog.lookup k = some { a with rxMlat := m, rxSync := m' }) ∧
    s'.altsFt.lookup k = s.altsFt.lookup k ∧ s'.adsbPos.lookup k = s.adsbPos.lookup k ∧
    s'.tracks.lookup k = s.tracks.lookup k ∧ s'.filters.lookup k = s.filters.lookup k
  /-- and so does the fresh interest of live receivers in it -/
  keepsInterest : ∀ k a a', s.acLog.lookup k = some a → s'.acLog.lookup k = some a' → ∀ i t,
    s.isAlive i = true → now - t < interestS →
      (a.rxSync.lookup i = some t → a'.rxSync.lookup i = some t) ∧
      (a.rxMlat.lookup i = some t → a'.rxMlat.lookup i = some t)

theorem expireAt_expired (s : State F) (now : F) : Expired s now (s.expireAt now) where
  heard k hk := by
    have h1 : k ∈ (s.expireAt now).acLog := by
      rcases hk with h | h | h | h | h
      · exact h
      · exact mem_heard s now s.altsFt k h
      · exact mem_heard s now s.adsbPos k h
      · exact mem_heard s now s.tracks k h
      · exact mem_heard s now s.filters k h
    obtain ⟨a, ha, hseen⟩ := mem_expireAt.1 h1
    rw [expireAt_lookup, ha, Option.filter_some, if_pos (decide_eq_true hseen)]
    exact ⟨_, rfl, hseen⟩
  rxInterest i log hlog hi k t ht := by
    have hi : s.isAlive i = true := hi
    unfold expireAt at hlog
    simp only [List.getElem?_mapIdx, Option.map_eq_some_iff] at hlog
    obtain ⟨log', -, rfl⟩ := hlog
    rw [if_pos hi] at ht
    simp only [Finmap.lookup_retain, Option.filter_eq_some_iff] at ht
    rcases ht with ⟨-, h⟩ | ⟨-, h⟩
    · exact of_decide_eq_true h
    · exact of_decide_eq_true h
  acInterest k a ha i t ht := by
    rw [expireAt_lookup] at ha
    obtain ⟨a', -, rfl⟩ := Option.map_eq_some_iff.1 ha
    have h : (isFresh now t && s.isAlive i) = true := by
      simp only [Finmap.lookup_retain, Option.filter_eq_some_iff] at ht
      exact ht.elim (fun h => h.2) (fun h => h.2)
    rw [Bool.and_eq_true] at h
    exact ⟨h.2, of_decide_eq_true h.1⟩
  keeps k a ha hseen := by
    have hk : k ∈ (s.expireAt now).acLog := mem_expireAt.2 ⟨a, ha, hseen⟩
    refine ⟨?_, ?_, ?_, ?_, ?_⟩
    · rw [expireAt_lookup, ha, Option.filter_some, if_pos (decide_eq_true hseen)]
      exact ⟨_, _, rfl⟩
    · exact lookup_heard s now s.altsFt k hk
    · exact lookup_heard s now s.adsbPos k hk
    · exact lookup_heard s now s.tracks k hk
    · exact lookup_heard s now s.filters k hk
  keepsInterest k a a' ha ha' i t hi ht := by
    rw [expireAt_lookup, ha] at ha'
    obtain ⟨b, hb, rfl⟩ := Option.map_eq_some_iff.1 ha'
    have hb : a = b := Option.some.inj (Option.filter_eq_some_iff.1 hb).1
    have hkeep : (isFresh now t && s.isAlive i) = true := by
      rw [hi, Bool.and_true]
      exact decide_eq_true ht
    simp only [Finmap.lookup_retain]
    rw [← hb]
    constructor
    · intro h
      rw [h, Option.filter_some, if_pos hkeep]
    · intro h
      rw [h, Option.filter_some, if_pos hkeep]

/-! ## Nothing is remembered of an aircraft without a log -/

/-- What is remembered of an aircraft has a log beside it. -/
structure Logged (s : State F) : Prop where
  altsFt : ∀ k, k ∈ s.altsFt → k ∈ s.acLog
  adsbPos : ∀ k, k ∈ s.adsbPos → k ∈ s.acLog
  tracks : ∀ k, k ∈ s.tracks → k ∈ s.acLog
  filters : ∀ k, k ∈ s.filters → k ∈ s.acLog

namespace Logged

theorem hears {s s' : State F} (h : Logged s) (hs : Hears s s') : Logged s' where
  altsFt k hk := (hs.altsFt k hk).elim (fun h1 => hs.logs k (h.altsFt k h1)) id
  adsbPos k hk := (hs.adsbPos k hk).elim (fun h1 => hs.logs k (h.adsbPos k h1)) id
  tracks k hk := hs.logs k (h.tracks k (hs.tracks ▸ hk))
  filters k hk := hs.logs k (h.filters k (hs.filters ▸ hk))

/-- Only the aircraft of a solve is newly remembered by it. -/
theorem concerns {s s' : State F} {icao : Icao} (h : Logged s) (hs : Concerns icao s s')
    (hi : icao ∈ s.acLog) : Logged s' where
  altsFt k hk := hs.logs k (h.altsFt k (hs.altsFt ▸ hk))
  adsbPos k hk := hs.logs k (h.adsbPos k (hs.adsbPos ▸ hk))
  tracks k hk := by
    apply hs.logs
    by_cases hki : k = icao
    · rw [hki]
      exact hi
    · rw [Finmap.mem_iff_isSome, hs.tracks k hki, ← Finmap.mem_iff_isSome] at hk
      exact h.tracks k hk
  filters k hk := by
    apply hs.logs
    by_cases hki : k = icao
    · rw [hki]
      exact hi
    · rw [Finmap.mem_iff_isSome, hs.filters k hki, ← Finmap.mem_iff_isSome] at hk
      exact h.filters k hk

theorem expireAt (s : State F) (now : F) : Logged (s.expireAt now) where
  altsFt := mem_heard s now s.altsFt
  adsbPos := mem_heard s now s.adsbPos
  tracks := mem_heard s now s.tracks
  filters := mem_heard s now s.filters

theorem expireIfDue {s : State F} (h : Logged s) (now : Instant) : Logged (s.expireIfDue now) := by
  unfold State.expireIfDue
  split
  · exact Logged.expireAt _ _
  · exact h

end Logged

end State

/-- A solve comes while its aircraft has a log. -/
def Turn.inTime (s : State F) : Turn F → Prop
  | .solve _ g _ _ => g.icao ∈ s.acLog
  | _ => True

instance (s : State F) : (t : Turn F) → Decidable (t.inTime s)
  | .solve _ g _ _ => inferInstanceAs (Decidable (g.icao ∈ s.acLog))
  | .msg _ _ _ | .expire _ | .take _ => inferInstanceAs (Decidable True)

/-- One turn keeps a log beside everything remembered. -/
theorem State.Logged.step (env : Env F) {s : State F} (h : State.Logged s) {t : Turn F}
    (ht : t.inTime s) : State.Logged (t.step env s) := by
  cases t with
  | msg now heard m =>
    by_cases hm : m = .stateJson
    · rw [hm]
      exact (State.Logged.expireAt s _).hears (State.decayCounters_hears _)
    · exact h.hears (State.handle_hears env s now heard hm)
  | expire now =>
    have h1 : State.Logged (s.expireSyncpoints now) := ⟨h.altsFt, h.adsbPos, h.tracks, h.filters⟩
    exact h1.expireIfDue now
  | take key => exact ⟨h.altsFt, h.adsbPos, h.tracks, h.filters⟩
  | solve now g localRef cluster =>
    exact h.concerns (State.solveCluster_concerns env s now g localRef cluster) ht

/-- Whatever a shard remembers of an aircraft has a log beside it, as long as groups are solved
    while their aircraft has one; and an expiry pass at any time leaves only what was heard
    recently, and all of that. -/
theorem Shard.memory_bounded (env : Env F) (c : Config F) (es : List (Event F))
    (h : Run.Steps (Turn.step env) (fun s t => t.inTime s) (boot c) (turns env (boot c) es)) :
    (run env (boot c) es).Logged ∧
      ∀ now, State.Expired (run env (boot c) es) now ((run env (boot c) es).expireAt now) := by
  refine ⟨?_, fun now => State.expireAt_expired _ now⟩
  rw [← exec_turns]
  refine Run.invariant_of_steps (fun s t hs ht => hs.step env ht) ?_ h
  have hnot : ∀ {V : Type} (k : Icao), k ∉ (∅ : HashMap Icao V) := fun k => Finmap.notMem_empty
  exact ⟨fun k hk => absurd hk (hnot k), fun k hk => absurd hk (hnot k),
    fun k hk => absurd hk (hnot k), fun k hk => absurd hk (hnot k)⟩

/-- The shard of five reports, which smooths its fixes, and solves one group. -/
def Sample.smoothing : Shard.Config ℚ := { Sample.config with emitFiltered := true }

/-- At the end two aircraft have an altitude, one of them a position it broadcast, the other a
    track and a filter; an hour later all are gone. -/
theorem Shard.memory_bounded_five :
    let s := run Sample.fitting (boot Sample.smoothing) Sample.fiveReport
    s.Logged ∧ State.Expired s 3600 (s.expireAt 3600) ∧
      (s.altsFt.len, s.adsbPos.len, s.tracks.len, s.filters.len, s.acLog.len) = (2, 1, 1, 1, 2) ∧
      ((s.expireAt 3600).altsFt.len, (s.expireAt 3600).filters.len, (s.expireAt 3600).acLog.len) =
        (0, 0, 0) := by
  have hrun :
      let s := run Sample.fitting (boot Sample.smoothing) Sample.fiveReport
      Run.Steps (Turn.step Sample.fitting) (fun s t => t.inTime s) (boot Sample.smoothing)
        (turns Sample.fitting (boot Sample.smoothing) Sample.fiveReport) ∧
      (s.altsFt.len, s.adsbPos.len, s.tracks.len, s.filters.len, s.acLog.len) = (2, 1, 1, 1, 2) ∧
      ((s.expireAt 3600).altsFt.len, (s.expireAt 3600).filters.len, (s.expireAt 3600).acLog.len) =
        (0, 0, 0) := by
    decide +kernel
  obtain ⟨hlogged, hexpired⟩ := Shard.memory_bounded Sample.fitting Sample.smoothing
    Sample.fiveReport hrun.1
  exact ⟨hlogged, hexpired 3600, hrun.2⟩

end Mlatd
