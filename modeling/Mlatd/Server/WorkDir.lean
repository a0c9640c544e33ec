/-
  The work directory (main.rs, its export task; state.rs, sync_json, state_json, receiver_stats):
  what monitoring reads in one file and in another, and what a feeder is told of itself.

  `monitors_agree`: after any run of a shard sync.json and clients.json list the same receivers,
  peers are mutual, and each count and verdict on a receiver is the same wherever it is reported.
  `aircraft_speaker`: of an aircraft that several shards hold, aircraft.json has the entry of one
  that had heard it most lately as it answered, to a tenth of a second.
-/
import Mlatd.Lib.MergeBy
import Mlatd.Server.Names

namespace Mlatd

variable {F : Type} [F64 F]

/-! ## Peers -/

namespace State

variable {s : State F}

theorem isAlive_of_pair (wf : WellFormed s) {i b : ℕ} {pm : PairModel F}
    (h : s.pairs.lookup (i, b) = some pm) : s.isAlive i = true ∧ s.isAlive b = true :=
  ⟨wf.mentions i (.pairFrom b pm h), wf.mentions b (.pairTo i pm h)⟩

theorem mem_peers (wf : WellFormed s) {i b : ℕ} :
    b ∈ s.peers i ↔ ∃ pm, s.pairs.lookup (i, b) = some pm := by
  unfold peers
  rw [List.mem_filter, mem_liveSlots wf, Option.isSome_iff_exists]
  exact ⟨fun h => h.2, fun ⟨pm, h⟩ => ⟨(isAlive_of_pair wf h).2, pm, h⟩⟩

omit [F64 F] in
theorem peers_nodup (s : State F) (i : ℕ) : (s.peers i).Nodup :=
  (List.nodup_range.filter _).filter _

/-- The count the feeder is told is that of the list. -/
theorem card_livePeers (wf : WellFormed s) (i : ℕ) :
    (s.livePeers i).card = (s.peers i).length := by
  have heq : s.livePeers i = (s.peers i).toFinset := by
    ext b
    rw [List.mem_toFinset, mem_peers wf]
    unfold livePeers
    simp only [Finset.mem_image, Finset.mem_filter, Finmap.mem_keys_iff_lookup, Prod.exists]
    constructor
    · rintro ⟨a, _, ⟨⟨pm, h⟩, rfl, -⟩, rfl⟩
      exact ⟨pm, h⟩
    · rintro ⟨pm, h⟩
      exact ⟨i, b, ⟨⟨pm, h⟩, rfl, (isAlive_of_pair wf h).2⟩, rfl⟩
  rw [heq, List.toFinset_card_of_nodup (peers_nodup s i)]

/-- sync.json has the peers of the list, by name. -/
theorem peers_syncEntry (wf : WellFormed s) (i : ℕ) :
    (s.syncEntry i).peers = (s.peers i).foldl (fun m b => m.insert (s.receiver b).user
      (((s.pairs.lookup (i, b)).map PairModel.status).getD (0, 0.0))) ∅ := by
  have hpeers : s.peers i =
      (List.range s.receivers.length).filter fun b => (s.pairs.lookup (i, b)).isSome := by
    unfold peers liveSlots
    rw [List.filter_filter]
    refine List.filter_congr fun b _ => ?_
    cases h : s.pairs.lookup (i, b) with
    | none => rfl
    | some pm => rw [(isAlive_of_pair wf h).2]; rfl
  rw [hpeers, List.foldl_filter]
  refine List.foldl_ext _ _ _ fun m b _ => ?_
  cases s.pairs.lookup (i, b) with
  | none => rfl
  | some pm => rfl

theorem keys_syncEntry (wf : WellFormed s) (i : ℕ) :
    (s.syncEntry i).peers.keys = (s.peers i).toFinset.image fun b => (s.receiver b).user := by
  have hinj : ∀ a ∈ s.peers i, ∀ b ∈ s.peers i,
      (s.receiver a).user = (s.receiver b).user → a = b := by
    intro a ha b hb hu
    obtain ⟨pa, hpa⟩ := (mem_peers wf).1 ha
    obtain ⟨pb, hpb⟩ := (mem_peers wf).1 hb
    exact wf.user_inj (isAlive_of_pair wf hpa).2 (isAlive_of_pair wf hpb).2 hu
  ext user
  rw [Finmap.mem_keys_iff_lookup, peers_syncEntry wf, Finset.mem_image]
  simp only [Finmap.lookup_foldl_insert (fun b => (s.receiver b).user) _ hinj, List.mem_toFinset]
  constructor
  · rintro ⟨v, ⟨b, hb, hu, -⟩ | ⟨-, h⟩⟩
    · exact ⟨b, hb, hu⟩
    · rw [Finmap.lookup_empty] at h
      cases h
  · rintro ⟨b, hb, hu⟩
    exact ⟨_, Or.inl ⟨b, hb, hu, rfl⟩⟩

theorem mem_syncEntry (wf : WellFormed s) {i : ℕ} {peer : String} :
    peer ∈ (s.syncEntry i).peers ↔
      ∃ b, (∃ pm, s.pairs.lookup (i, b) = some pm) ∧ (s.receiver b).user = peer := by
  rw [← Finmap.mem_keys, keys_syncEntry wf]
  simp only [Finset.mem_image, List.mem_toFinset, mem_peers wf]

theorem len_syncEntry (wf : WellFormed s) (i : ℕ) :
    (s.syncEntry i).peers.len = (s.peers i).length := by
  unfold Finmap.len
  rw [keys_syncEntry wf, Finset.card_image_of_injOn, List.toFinset_card_of_nodup (peers_nodup s i)]
  intro a ha b hb hu
  rw [Finset.mem_coe, List.mem_toFinset, mem_peers wf] at ha hb
  obtain ⟨pa, hpa⟩ := ha
  obtain ⟨pb, hpb⟩ := hb
  exact wf.user_inj (isAlive_of_pair wf hpa).2 (isAlive_of_pair wf hpb).2 hu

end State

/-! ## One shard's reports -/

/-- The reports on the receivers of a shard agree: sync.json, clients.json and what the stats
    push tells each feeder. -/
structure MonitorsAgree (s : State F) (now : Instant) : Prop where
  users : ∀ user, user ∈ s.syncJson ↔ user ∈ (s.stateJson now).2.1
  mutually : ∀ user v peer, s.syncJson.lookup user = some v → peer ∈ v.peers →
    peer ≠ user ∧ ∃ w, s.syncJson.lookup peer = some w ∧ user ∈ w.peers
  /-- The count of peers and the quarantine of one receiver. -/
  counts : ∀ r, s.live r = true → ∃ v c percent bad,
    s.syncJson.lookup (s.receiver r.idx).user = some v ∧
    (s.stateJson now).2.1.lookup (s.receiver r.idx).user = some c ∧
    (s.receiverStats r).2 = some (c.peerCount, percent, bad) ∧ v.peers.len = c.peerCount ∧
    v.badSyncs = (if bad then 0.4 else 0.0) ∧
    c.badSyncTimeout = F64.asU64 (F64.round (v.badSyncs * (150.0 : F)))
  /-- The bad peers of a receiver are its peers in quarantine. -/
  badPeers : ∀ r q v c, s.live r = true → s.live q = true →
    s.syncJson.lookup (s.receiver r.idx).user = some v →
    (s.stateJson now).2.1.lookup (s.receiver r.idx).user = some c →
    ((s.receiver q.idx).user ∈ c.badPeerList ↔
      (s.receiver q.idx).user ∈ v.peers ∧
        ∃ n percent, (s.receiverStats q).2 = some (n, percent, true))

namespace State

variable {s : State F}

theorem receiverStats_of_live (wf : WellFormed s) {r : RxRef} (h : s.live r = true) :
    ∃ percent, (s.receiverStats r).2 =
      some ((s.peers r.idx).length, percent, (s.bias r.idx).quarantined) := by
  unfold receiverStats
  rw [h, if_neg (by decide), card_livePeers wf]
  exact ⟨_, rfl⟩

/-- The entry of a live receiver in clients.json, as far as its peers go: expiry leaves them. -/
theorem clientNow_peers (s : State F) (now : Instant) (i : ℕ) :
    (s.clientNow now i).peerCount = (s.peers i).length ∧
      (s.clientNow now i).badSyncTimeout = F64.asU64 (F64.round (s.badSyncs i * (150.0 : F))) ∧
      (s.clientNow now i).badPeerList =
        ((s.peers i).filter fun b => (s.bias b).quarantined).map fun b => (s.receiver b).user :=
  ⟨rfl, rfl, rfl⟩

theorem monitorsAgree_of_wellFormed (wf : WellFormed s) (now : Instant) :
    MonitorsAgree s now where
  users user := by
    rw [Finmap.mem_iff, Finmap.mem_iff]
    simp only [lookup_syncJson wf, lookup_stateJson wf]
    constructor
    · rintro ⟨-, i, hi, hu, -⟩
      exact ⟨_, i, hi, hu, rfl⟩
    · rintro ⟨-, i, hi, hu, -⟩
      exact ⟨_, i, hi, hu, rfl⟩
  mutually user v peer hv hp := by
    obtain ⟨i, hi, rfl, rfl⟩ := (lookup_syncJson wf user v).1 hv
    obtain ⟨b, hb, rfl⟩ := (mem_syncEntry wf).1 hp
    have hback := wf.pairs.symm i b hb
    obtain ⟨pm, hpm⟩ := hb
    have halive := (isAlive_of_pair wf hpm).2
    refine ⟨fun hu => ?_, _, (lookup_syncJson wf _ _).2 ⟨b, halive, rfl, rfl⟩,
      (mem_syncEntry wf).2 ⟨i, hback, rfl⟩⟩
    rw [wf.user_inj halive hi hu, wf.pairs.irrefl i] at hpm
    cases hpm
  counts r hr := by
    obtain ⟨-, halive, -⟩ := (live_iff s r).1 hr
    obtain ⟨percent, hstats⟩ := receiverStats_of_live wf hr
    exact ⟨_, _, percent, _, (lookup_syncJson wf _ _).2 ⟨r.idx, halive, rfl, rfl⟩,
      (lookup_stateJson wf now _ _).2 ⟨r.idx, halive, rfl, rfl⟩, hstats, len_syncEntry wf r.idx,
      rfl, rfl⟩
  badPeers r q v c hr hq hv hc := by
    obtain ⟨-, hr, -⟩ := (live_iff s r).1 hr
    obtain ⟨percent, hstats⟩ := receiverStats_of_live wf hq
    obtain ⟨-, hq, -⟩ := (live_iff s q).1 hq
    obtain ⟨i, hi, hui, rfl⟩ := (lookup_syncJson wf _ v).1 hv
    obtain ⟨j, hj, huj, rfl⟩ := (lookup_stateJson wf now _ c).1 hc
    obtain rfl := wf.user_inj hi hr hui
    obtain rfl := wf.user_inj hj hr huj
    rw [(clientNow_peers s now r.idx).2.2, mem_syncEntry wf, hstats]
    simp only [List.mem_map, List.mem_filter, mem_peers wf, Option.some.injEq, Prod.mk.injEq]
    constructor
    · rintro ⟨b, ⟨⟨pm, hb⟩, hbad⟩, hu⟩
      obtain rfl := wf.user_inj (isAlive_of_pair wf hb).2 hq hu
      exact ⟨⟨_, ⟨pm, hb⟩, rfl⟩, _, _, rfl, rfl, hbad⟩
    · rintro ⟨⟨b, ⟨pm, hb⟩, hu⟩, _, _, -, -, hbad⟩
      obtain rfl := wf.user_inj (isAlive_of_pair wf hb).2 hq hu
      exact ⟨_, ⟨⟨pm, hb⟩, hbad⟩, rfl⟩

end State

/-- **The monitors agree.** After every run of a shard, whenever the files are written: the
    receivers, the peers of each and their number, and who is in quarantine. -/
theorem monitors_agree (env : Env F) (c : Shard.Config F) (es : List (Shard.Event F))
    (now : Instant) : MonitorsAgree (Shard.run env (Shard.boot c) es) now :=
  State.monitorsAgree_of_wellFormed (State.run_wellFormed env c es) now

/-! ## aircraft.json of the process -/

/-- `as_f64` of a number in JSON, which has none for what is not finite. -/
def jsonNumber (x : F) : Option F := if F64.isFinite x then some x else none

/-- The entry was heard later than the one held. -/
def AircraftEntry.newer (entry held : AircraftEntry F) : Bool :=
  (jsonNumber held.elapsedSeen).all fun prev =>
    decide ((jsonNumber entry.elapsedSeen).getD 1.7976931348623157e308 < prev)

/-- A shard as it answers the export: what it holds by then, and when that is. -/
structure StateReply (F : Type) where
  state : State F
  now : Instant

namespace StateReply

/-- The time since the shard heard the aircraft of this entry, as it answers. -/
def since (r : StateReply F) (a : AcLog F) : F := r.state.scaledNow r.now - a.seen

def aircraft (r : StateReply F) : HashMap Icao (AircraftEntry F) := (r.state.stateJson r.now).2.2

end StateReply

/-- aircraft.json of the work directory. The shards are asked one after the other, and go on
    between the answers. -/
def aircraftJson (replies : List (StateReply F)) : HashMap Icao (AircraftEntry F) :=
  (replies.map StateReply.aircraft).foldl (Finmap.mergeBy AircraftEntry.newer) ∅

namespace StateReply

variable {r : StateReply F} {icao : Icao}

/-- An answer has the aircraft that are not expired, each with the time since it was heard. -/
theorem lookup_aircraft (r : StateReply F) (icao : Icao) :
    (r.aircraft.lookup icao).map AircraftEntry.elapsedSeen =
      ((r.state.acLog.lookup icao).filter fun a => decide (r.since a < acExpireS)).map
        fun a => roundTo 10.0 (r.since a) := by
  unfold aircraft State.stateJson State.expireAt
  simp only [Finmap.lookup_mapVals, Finmap.lookup_retain, Option.map_map]
  rfl

theorem exists_aircraft {a : AcLog F} (ha : r.state.acLog.lookup icao = some a)
    (hlt : r.since a < acExpireS) :
    ∃ e, r.aircraft.lookup icao = some e ∧ e.elapsedSeen = roundTo 10.0 (r.since a) := by
  have h := r.lookup_aircraft icao
  rw [ha, Option.filter_some, if_pos (decide_eq_true hlt), Option.map_some] at h
  exact Option.map_eq_some_iff.1 h

theorem log_of_aircraft {e : AircraftEntry F} (he : r.aircraft.lookup icao = some e) :
    ∃ a, r.state.acLog.lookup icao = some a ∧ r.since a < acExpireS ∧
      e.elapsedSeen = roundTo 10.0 (r.since a) := by
  have h := r.lookup_aircraft icao
  rw [he, Option.map_some] at h
  obtain ⟨a, ha, hround⟩ := Option.map_eq_some_iff.1 h.symm
  obtain ⟨ha, hlt⟩ := Option.filter_eq_some_iff.1 ha
  exact ⟨a, ha, of_decide_eq_true hlt, hround.symm⟩

end StateReply

theorem abs_round_sub_le (x : ℝ) : |F64.round x - x| ≤ 1 / 2 := by
  have hround : F64.round x = if 0 ≤ x then ((⌊x + 1 / 2⌋ : ℤ) : ℝ) else (⌈x - 1 / 2⌉ : ℤ) := rfl
  rw [hround, abs_le]
  split
  · have h1 := Int.floor_le (x + 1 / 2)
    have h2 := Int.lt_floor_add_one (x + 1 / 2)
    constructor <;> linarith
  · have h1 := Int.le_ceil (x - 1 / 2)
    have h2 := Int.ceil_lt_add_one (x - 1 / 2)
    constructor <;> linarith

/-- A time rounded to tenths of a second. -/
theorem abs_roundTo_sub_le (x : ℝ) : |roundTo 10.0 x - x| ≤ 0.05 := by
  have h := abs_round_sub_le (x * 10.0)
  have hscale : roundTo 10.0 x - x = (F64.round (x * 10.0) - x * 10.0) / 10 := by
    have h10 : (10.0 : ℝ) = 10 := by norm_num
    unfold roundTo
    rw [h10]
    ring
  rw [hscale, abs_div, abs_of_pos (by norm_num : (0 : ℝ) < 10), div_le_iff₀ (by norm_num)]
  exact h.trans (by norm_num)

theorem newer_eq (entry held : AircraftEntry ℝ) :
    entry.newer held = decide (entry.elapsedSeen < held.elapsedSeen) := rfl

theorem lookup_aircraftJson (replies : List (StateReply ℝ)) (icao : Icao) :
    (aircraftJson replies).lookup icao =
      (replies.filterMap fun r => r.aircraft.lookup icao).argmin AircraftEntry.elapsedSeen := by
  unfold aircraftJson
  rw [Finmap.lookup_foldl_mergeBy newer_eq, List.filterMap_map]
  rfl

/-- **The shard that heard an aircraft last speaks for it.** aircraft.json leaves an aircraft out
    exactly when every shard that holds it has not heard it for the time of expiry as it answers.
    Otherwise its entry is the one of a shard than which no other has heard it more lately, each at
    its own answer, by more than a tenth of a second. -/
theorem aircraft_speaker (replies : List (StateReply ℝ)) (icao : Icao) :
    ((aircraftJson replies).lookup icao = none ↔
      ∀ r ∈ replies, ∀ a, r.state.acLog.lookup icao = some a → acExpireS ≤ r.since a) ∧
    ∀ e, (aircraftJson replies).lookup icao = some e → ∃ r ∈ replies, ∃ a,
      r.state.acLog.lookup icao = some a ∧ r.aircraft.lookup icao = some e ∧
      ∀ r' ∈ replies, ∀ a', r'.state.acLog.lookup icao = some a' →
        r.since a ≤ r'.since a' + 0.1 := by
  rw [lookup_aircraftJson]
  constructor
  · rw [List.argmin_eq_none, List.filterMap_eq_nil_iff]
    constructor
    · intro hnone r hr a ha
      by_contra hlt
      obtain ⟨e, he, -⟩ := StateReply.exists_aircraft ha (not_le.1 hlt)
      rw [hnone r hr] at he
      cases he
    · intro hold r hr
      cases he : r.aircraft.lookup icao with
      | none => rfl
      | some e =>
        obtain ⟨a, ha, hlt, -⟩ := StateReply.log_of_aircraft he
        exact absurd (hold r hr a ha) (not_le.2 hlt)
  · intro e hmin
    obtain ⟨r, hr, he⟩ := List.mem_filterMap.1 (List.argmin_mem hmin)
    obtain ⟨a, ha, hlt, hround⟩ := StateReply.log_of_aircraft he
    refine ⟨r, hr, a, ha, he, fun r' hr' a' ha' => ?_⟩
    rcases lt_or_ge (r'.since a') acExpireS with hlt' | hge
    · obtain ⟨e', he', hround'⟩ := StateReply.exists_aircraft ha' hlt'
      have hle := List.le_of_mem_argmin (List.mem_filterMap.2 ⟨r', hr', he'⟩) hmin
      have h1 := (abs_le.1 (abs_roundTo_sub_le (r.since a))).1
      have h2 := (abs_le.1 (abs_roundTo_sub_le (r'.since a'))).2
      rw [hround, hround'] at hle
      norm_num at h1 h2 ⊢
      linarith
    · norm_num
      linarith

end Mlatd
