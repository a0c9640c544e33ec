/-
  States that differ under a veil (state.rs).

  The tracks, the count of refusals, the offsets of the references and the filters are written by
  the solves and read by them alone. `Veiled` says that two states differ at most in these. Every
  message, the start of a sweep, and the conclusions of attempts that are alike leave veiled states
  veiled: whatever else the code does, it does without looking under the veil.
-/
import Mlatd.Tracks.Memory
import Mlatd.Tracks.Publish

namespace Mlatd

variable {F : Type} [F64 F]

/-! ## States that differ under a veil -/

/-- What may differ between a run with a refused attempt and the run without. -/
structure Veil (F : Type) where
  tracks : HashMap Icao (Track F)
  statsRejected : ℕ
  stampOffset : HashMap ℕ F
  filters : HashMap Icao (TrackFilter F)

namespace State

def cover (s : State F) : Veil F := ⟨s.tracks, s.statsRejected, s.stampOffset, s.filters⟩

def veil (s : State F) (v : Veil F) : State F :=
  { s with
    tracks := v.tracks, statsRejected := v.statsRejected, stampOffset := v.stampOffset
    filters := v.filters }

/-- The states differ at most in what a veil covers. -/
def Veiled (s s' : State F) : Prop := s' = s.veil s'.cover

section
variable (env : Env F) (s : State F) (v : Veil F)

omit [F64 F] in
theorem veiled_of_eq {s s' : State F} {v : Veil F} (h : s' = s.veil v) : Veiled s s' := by
  rw [h]
  rfl

omit [F64 F] in
theorem foldl_veil {α : Type} {f : State F → α → State F}
    (hf : ∀ s a, f (s.veil v) a = (f s a).veil v) (as : List α) :
    as.foldl f (s.veil v) = (as.foldl f s).veil v := by
  induction as generalizing s with
  | nil => rfl
  | cons a as ih => rw [List.foldl_cons, List.foldl_cons, hf, ih]

/-! ### Messages -/

theorem removeReceiver_veil (r : RxRef) :
    Veiled (s.removeReceiver r) ((s.veil v).removeReceiver r) := by
  unfold removeReceiver
  have h : (s.veil v).live r = s.live r := rfl
  rw [h]
  cases s.live r with
  | false => rfl
  | true => rfl

omit [F64 F] in
theorem clockReset_veil (r : RxRef) : Veiled (s.clockReset r) ((s.veil v).clockReset r) := by
  unfold clockReset
  have h : (s.veil v).live r = s.live r := rfl
  rw [h]
  cases s.live r with
  | false => rfl
  | true => rfl

theorem takeSlot_veil (info : ReceiverInfo F) :
    (s.veil v).takeSlot info = ((s.takeSlot info).1.veil v, (s.takeSlot info).2) := by
  unfold takeSlot
  have h : (s.veil v).freeSlots = s.freeSlots := rfl
  rw [h]
  cases s.freeSlots.getLast? with
  | none => rfl
  | some i => rfl

theorem issue_veil (info : ReceiverInfo F) :
    ((s.veil v).issue info).1 = (s.issue info).1.veil v := by
  unfold issue
  rw [takeSlot_veil]
  rfl

theorem addReceiver_veil (now : Instant) (heard : ℕ → F) (info : ReceiverInfo F) :
    Veiled (s.addReceiver now heard info).1 ((s.veil v).addReceiver now heard info).1 := by
  unfold addReceiver
  have h : (s.veil v).identify now heard info = s.identify now heard info := rfl
  rw [h]
  cases s.identify now heard info with
  | none => rfl
  | some p =>
    obtain ⟨replaced, user⟩ := p
    cases replaced with
    | none => exact veiled_of_eq (issue_veil s v _)
    | some i =>
      have h1 : (s.veil v).evict i = (s.evict i).veil ((s.veil v).evict i).cover :=
        removeReceiver_veil s v _
      simp only
      rw [h1]
      exact veiled_of_eq (issue_veil _ _ _)

theorem onMlat_veil (now : Instant) (r : RxRef) (t : F) (m : String) (at' : F) :
    (s.veil v).onMlat env now r t m at' = (s.onMlat env now r t m at').veil v := by
  unfold onMlat
  have h1 : (s.veil v).live r = s.live r := rfl
  have h2 : (s.veil v).mlatAdsb = s.mlatAdsb := rfl
  rw [h1, h2]
  cases s.live r with
  | false => rfl
  | true =>
    simp only [Bool.not_true, Bool.false_eq_true, if_false]
    cases env.hexDecode m with
    | none => rfl
    | some raw =>
      simp only
      cases mlatFrame s.mlatAdsb raw with
      | none => rfl
      | some p =>
        obtain ⟨icao, alt⟩ := p
        cases alt with
        | none => rfl
        | some alt => rfl

theorem trainPair_veil (icao : Icao) (rx : ℕ) (te to' : F) (other : ℕ × F × F) :
    trainPair icao rx te to' (s.veil v) other = (trainPair icao rx te to' s other).veil v := by
  unfold trainPair
  have h : (s.veil v).isAlive other.1 = s.isAlive other.1 := rfl
  simp only
  rw [h]
  split
  · rfl
  · rfl

theorem trainSync_veil (now : Instant) (rx : ℕ) (icao : Icao) (key : String × String)
    (te to' : F) :
    (s.veil v).trainSync now rx icao key te to' = (s.trainSync now rx icao key te to').veil v := by
  unfold trainSync
  have h : (s.veil v).syncpointAt now key = s.syncpointAt now key := rfl
  simp only
  rw [h]
  split
  · rfl
  · exact foldl_veil { s with syncpoints := _ } v (fun s => trainPair_veil s v icao rx te to') _

theorem onSync_veil (now : Instant) (r : RxRef) (et ot : F) (em om : String) (at' : F) :
    (s.veil v).onSync env now r et ot em om at' =
      (s.onSync env now r et ot em om at').veil v := by
  unfold onSync
  have h : (s.veil v).live r = s.live r := rfl
  rw [h]
  cases s.live r with
  | false => rfl
  | true =>
    simp only [Bool.not_true, Bool.false_eq_true, if_false]
    cases decodeSync env em om with
    | none => rfl
    | some d =>
      obtain ⟨de, do'⟩ := d
      simp only
      cases syncPositions (F := F) de do' with
      | none => rfl
      | some p =>
        obtain ⟨pe, po⟩ := p
        have h1 : ((s.veil v).noteSync r.idx de.icao at').notePosition de pe at' =
            ((s.noteSync r.idx de.icao at').notePosition de pe at').veil v := rfl
        have h2 : ((s.veil v).noteSync r.idx de.icao at').receiver r.idx =
            (s.noteSync r.idx de.icao at').receiver r.idx := rfl
        have h3 : (((s.noteSync r.idx de.icao at').notePosition de pe at').veil v).mlatAdsb =
            ((s.noteSync r.idx de.icao at').notePosition de pe at').mlatAdsb := rfl
        simp only
        rw [h1, h2, h3]
        split
        · rw [onMlat_veil, trainSync_veil]
        · rw [trainSync_veil]

theorem receiverStats_veil (r : RxRef) :
    Veiled (s.receiverStats r).1 ((s.veil v).receiverStats r).1 := by
  unfold receiverStats
  have h : (s.veil v).live r = s.live r := rfl
  rw [h]
  cases s.live r with
  | false => rfl
  | true => rfl

theorem handle_veil (now : Instant) (heard : ℕ → F) (m : ShardMsg F) :
    Veiled (Shard.handle env s now heard m).1 (Shard.handle env (s.veil v) now heard m).1 := by
  cases m with
  | addReceiver info => exact addReceiver_veil s v now heard info
  | removeReceiver r => exact removeReceiver_veil s v r
  | sync r et ot em om at' =>
    unfold Shard.handle
    simp only
    rw [onSync_veil]
    rfl
  | mlat r t m at' =>
    unfold Shard.handle
    simp only
    rw [onMlat_veil]
    rfl
  | clockReset r => exact clockReset_veil s v r
  | receiverStats r => exact receiverStats_veil s v r
  | stats => rfl
  | syncJson => rfl
  | stateJson => rfl

/-! ### The sweep -/

theorem expire_veil (now : Instant) :
    Veiled ((s.expireSyncpoints now).expireIfDue now)
      (((s.veil v).expireSyncpoints now).expireIfDue now) := by
  unfold expireIfDue
  have h : ((s.veil v).expireSyncpoints now).lastExpire = (s.expireSyncpoints now).lastExpire := rfl
  rw [h]
  split
  · rfl
  · rfl

/-! ### A solve -/

theorem trainAllBenched_veil (a : Attempt F) (sol : Solution F) :
    (s.veil v).trainAllBenched a sol = (s.trainAllBenched a sol).veil v := by
  unfold trainAllBenched
  split
  · exact foldl_veil s v (fun _ _ => rfl) a.benched
  · rfl

theorem learnBias_veil (a : Attempt F) (sol : Solution F) (withMad : Bool) :
    (s.veil v).learnBias a sol withMad = (s.learnBias a sol withMad).veil v := by
  unfold learnBias
  split
  · exact foldl_veil s v (fun _ _ => rfl) _
  · rfl

end

end State

/-! ## Attempts that differ in the gated backoff and the stamp -/

/-- The same attempt, but for its stamp and for when the last gated one was. -/
def Attempt.Alike (a a' : Attempt F) : Prop :=
  a' = { a with
    track := { a.track with lastGatedAttemptScaled := a'.track.lastGatedAttemptScaled }
    stamp := a'.stamp }

namespace Attempt.Alike

variable {a a' : Attempt F}

theorem judge (h : a.Alike a') (sol : Solution F) : State.judge a' sol = State.judge a sol := by
  rw [h]
  rfl

theorem act (h : a.Alike a') (sol : Option (Solution F)) : a'.act sol = a.act sol := by
  cases sol with
  | none =>
    rw [h]
    rfl
  | some sol =>
    unfold Attempt.act
    simp only
    rw [h.judge, h]

theorem publishes (h : a.Alike a') : a'.publishes = a.publishes := by
  funext sol
  unfold Attempt.publishes
  rw [h.judge, h]

theorem solution (h : a.Alike a') (env : Env F) (s : State F) (v : Veil F) :
    (s.veil v).solution env a' = s.solution env a := by
  rw [h]
  rfl

end Attempt.Alike

namespace State

theorem selfTruth_veiled (s : State F) (v : Veil F) {a a' : Attempt F} (ha : a.Alike a')
    (sol : Solution F) : Veiled (s.selfTruth a sol).1 ((s.veil v).selfTruth a' sol).1 := by
  have hlearn : (s.veil v).learnBias a' sol false = (s.learnBias a sol false).veil v := by
    rw [← learnBias_veil, ha]
    rfl
  have hicao : a'.icao = a.icao := by
    rw [ha]
  have hnow : a'.nowScaled = a.nowScaled := by
    rw [ha]
  have hpos : ((s.learnBias a sol false).veil v).adsbPos = (s.learnBias a sol false).adsbPos := rfl
  unfold selfTruth
  simp only
  rw [hlearn, hicao, hnow, hpos]
  split
  · rfl
  · cases (s.learnBias a sol false).adsbPos.lookup a.icao with
    | none => rfl
    | some claim =>
      simp only
      split
      · rfl
      · rfl

theorem smooth_veiled (s : State F) (v : Veil F) (a a' : Attempt F) (sol : Solution F) :
    Veiled (s.smooth a sol).1 ((s.veil v).smooth a' sol).1 := by
  unfold smooth
  have h : (s.veil v).emitFiltered = s.emitFiltered := rfl
  rw [h]
  split
  · rfl
  · cases s.filters.lookup a.icao with
    | none => cases (s.veil v).filters.lookup a'.icao <;> rfl
    | some f => cases (s.veil v).filters.lookup a'.icao <;> rfl

theorem publish_veiled (s : State F) (v : Veil F) {a a' : Attempt F} (ha : a.Alike a')
    (sol : Solution F) : Veiled (s.publish a sol).1 ((s.veil v).publish a' sol).1 := by
  have hlearn (s : State F) : (s.veil v).learnBias a' sol true =
      (s.learnBias a sol true).veil v := by
    rw [← learnBias_veil, ha]
    rfl
  have hfix (s : State F) : (s.veil v).noteFix a' sol =
      (s.noteFix a sol).veil ((s.veil v).noteFix a' sol).cover := by
    rw [ha]
    rfl
  have hcount : { s.veil v with statsSolved := (s.veil v).statsSolved + 1 } =
      ({ s with statsSolved := s.statsSolved + 1 } : State F).veil v := rfl
  have hpublish (s : State F) (a : Attempt F) : (s.publish a sol).1 =
      ((State.learnBias { s with statsSolved := s.statsSolved + 1 } a sol true).noteFix a
        sol |>.smooth a sol).1 := rfl
  rw [hpublish, hpublish, hcount, hlearn, hfix]
  exact smooth_veiled _ _ _ _ _

theorem conclude_veiled {s s' : State F} (hs : Veiled s s') {a a' : Attempt F} (ha : a.Alike a')
    (h : ((s'.tracks.lookup a.icao).getD Track.default).speedRejects =
      ((s.tracks.lookup a.icao).getD Track.default).speedRejects) (sol : Option (Solution F)) :
    Veiled (s.conclude a sol).1 (s'.conclude a' sol).1 := by
  obtain ⟨v, rfl⟩ : ∃ v, s' = s.veil v := ⟨_, hs⟩
  cases sol with
  | none => rfl
  | some sol =>
    have hicao : a'.icao = a.icao := by
      rw [ha]
    unfold conclude
    simp only
    rw [ha.judge]
    cases judge a sol with
    | some refusal =>
      cases refusal with
      | uncertain | throttled | offTrack => rfl
      | tooFast =>
        simp only
        unfold noteSpeedReject
        simp only
        rw [hicao, h]
        split
        · rfl
        · rfl
    | none =>
      have htrain : (s.veil v).trainAllBenched a' sol = (s.trainAllBenched a sol).veil v := by
        rw [← trainAllBenched_veil, ha]
        rfl
      have hdf : a'.isDf17 = a.isDf17 := by
        rw [ha]
      simp only
      rw [htrain, hdf]
      generalize s.trainAllBenched a sol = s
      split
      · exact selfTruth_veiled s v ha sol
      · exact publish_veiled s v ha sol

end State

end Mlatd
