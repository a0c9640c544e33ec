/-
  The periodic work of a shard (state.rs, sweep, expire_at, sync_json, state_json).

  The exports are maps from names to entries, an entry being a structure of what the JSON object
  holds; `aircraft` is keyed by the address whose hexadecimal text is its key. Peers are listed
  in slot order where the source lists them in the order of a hash map.
-/
import Mathlib.Data.Finset.Sort
import Mathlib.Data.String.Basic
import Mlatd.State.Cluster

namespace Mlatd

variable {F : Type} [F64 F]

/-- A sync point waits this long for reporters, s. -/
def syncpointLifeS : F := 4.0

/-! ## Expiry -/

/-- Heard within `interestS`. -/
def isFresh (now t : F) : Bool := decide (now - t < interestS)

namespace State

/-- Drop every trace of aircraft not heard for `acExpireS`, and stale interest. -/
def expireAt (s : State F) (now : F) : State F :=
  let keep (m : HashMap ℕ F) : HashMap ℕ F := m.retain fun rx t => isFresh now t && s.isAlive rx
  let acLog := (s.acLog.retain fun _ a => decide (now - a.seen < acExpireS)).mapVals fun _ a =>
    { a with rxMlat := keep a.rxMlat, rxSync := keep a.rxSync }
  let heard (k : Icao) : Bool := (acLog.lookup k).isSome
  { s with
    acLog := acLog
    altsFt := s.altsFt.retain fun k _ => heard k
    adsbPos := s.adsbPos.retain fun k _ => heard k
    tracks := s.tracks.retain fun k _ => heard k
    filters := s.filters.retain fun k _ => heard k
    rxLog := s.rxLog.mapIdx fun i log =>
      if s.isAlive i then
        { log with
          sync := log.sync.retain fun _ t => isFresh now t
          mlat := log.mlat.retain fun _ t => isFresh now t }
      else log }

/-! ## sweep -/

/-- Sync points past their life dropped. -/
def expireSyncpoints (s : State F) (now : Instant) : State F :=
  { s with
    syncpoints := s.syncpoints.retain fun _ sp =>
      decide (F64.ofNanos (now.since sp.created) < (syncpointLifeS : F)) }

/-- The expiry pass, every `expireEveryS`. -/
def expireIfDue (s : State F) (now : Instant) : State F :=
  if (expireEveryS : F) ≤ F64.ofNanos (now.since s.lastExpire) then
    State.expireAt { s with lastExpire := now } (s.scaledNow now)
  else s

/-- The groups whose window has closed, in the order `rank` puts them in: that of a hash map. -/
def readyGroups (s : State F) (now : Instant) (window : ℕ) (rank : String → ℕ) : List String :=
  ((s.groups.keys.filter fun k => (s.groups.lookup k).any fun g =>
    decide (window ≤ now.since g.created)).sort (· ≤ ·)).insertionSort fun a b => rank a ≤ rank b

/-- `groups.remove(&key)` -/
def takeGroup (s : State F) (key : String) : State F := { s with groups := s.groups.erase key }

/-- One group taken out and solved. -/
def solveReady (env : Env F) (clk : String → ℕ → Instant) (s : State F) (key : String) :
    State F × List (OutMsg F) :=
  match s.groups.lookup key with
  | none => (s, [])
  | some g => (s.takeGroup key).solveGroup env (clk key) g

/-- The groups `keys` solved in order; the clock reads `clk key k` at cluster `k` of `key`. -/
def solveAllReady (env : Env F) (clk : String → ℕ → Instant) :
    State F → List String → State F × List (OutMsg F)
  | s, [] => (s, [])
  | s, key :: keys =>
    let (s, out) := s.solveReady env clk key
    let (s, outs) := solveAllReady env clk s keys
    (s, out ++ outs)

/-- Solve groups older than the window, expire stale sync points and aircraft. -/
def sweep (env : Env F) (s : State F) (now : Instant) (window : ℕ) (rank : String → ℕ)
    (clk : String → ℕ → Instant) : State F × List (OutMsg F) :=
  let s := (s.expireSyncpoints now).expireIfDue now
  s.solveAllReady env clk (s.readyGroups now window rank)

end State

/-! ## sync.json -/

structure SyncEntry (F : Type) where
  /-- peer → observation count and offset in ppm -/
  peers : HashMap String (ℕ × F)
  badSyncs : F
  /-- The fudged position, `null` under privacy. -/
  pos : Option (F × F)

/-- The rounding of a value to a multiple of `1 / k`. -/
def roundTo (k x : F) : F := F64.round (x * k) / k

namespace State

/-- The bias quarantine on mlat-server's scale. -/
def badSyncs (s : State F) (rx : ℕ) : F := if (s.bias rx).quarantined then 0.4 else 0.0

/-- The live slots, in order. -/
def liveSlots (s : State F) : List ℕ :=
  (List.range s.receivers.length).filter fun i => s.isAlive i

def syncEntry (s : State F) (i : ℕ) : SyncEntry F where
  peers := (List.range s.receivers.length).foldl (fun m b =>
    match s.pairs.lookup (i, b) with
    | some pm => m.insert (s.receiver b).user pm.status
    | none => m) ∅
  badSyncs := s.badSyncs i
  pos := (s.rxLog.getD i default).mapPos

def syncJson (s : State F) : HashMap String (SyncEntry F) :=
  s.liveSlots.foldl (fun m i => m.insert (s.receiver i).user (s.syncEntry i)) ∅

end State

/-! ## clients.json, aircraft.json -/

structure ClientEntry (F : Type) where
  user : String
  uid : ℕ
  uuid : Option String
  coords : String
  lat : F
  lon : F
  alt : F
  privacy : Bool
  connection : String
  sourceIp : String
  sourcePort : ℕ
  messageRate : ℕ
  peerCount : ℕ
  badSyncTimeout : ℕ
  outlierPercent : F
  badPeerList : List String
  syncInterest : List String
  mlatInterest : List String

/-- What an aircraft's entry adds once it has a fix. -/
structure LastResult (F : Type) where
  lastResult : F
  lat : F
  lon : F
  alt : Option ℤ
  headingSpeed : Option (F × F)

structure AircraftEntry (F : Type) where
  icao : String
  elapsedSeen : F
  interesting : ℕ
  tracking : ℕ
  syncInterest : ℕ
  mlatInterest : ℕ
  adsbSeen : ℕ
  mlatMessageCount : ℕ
  mlatResultCount : ℕ
  syncCount1min : F
  syncBadPercent : F
  last : Option (LastResult F)
  trackingReceivers : Option (List ℕ)

/-- Initial bearing from `a` to `b`, degrees 0..360. -/
def bearingDeg (a b : Geodetic F) : F :=
  let la1 := F64.toRadians a.latDeg
  let la2 := F64.toRadians b.latDeg
  let dlon := F64.toRadians (b.lonDeg - a.lonDeg)
  let y := F64.sin dlon * F64.cos la2
  let x := F64.cos la1 * F64.sin la2 - F64.sin la1 * F64.cos la2 * F64.cos dlon
  F64.rem (F64.toDegrees (F64.atan2 y x) + 360.0) 360.0

/-- Heading and speed between the last two fixes, when they are close in time. -/
def headingSpeed (fixes : List (Fix F)) (last : Fix F) : Option (F × F) :=
  if fixes.length < 2 then none
  else
    (fixes[fixes.length - 2]?).bind fun prev =>
      let dt := last.t - prev.t
      if 0.0 < dt ∧ dt < 120.0 then
        some (F64.round (bearingDeg prev.pos last.pos),
          F64.round (prev.pos.haversineM last.pos / dt / 0.514444))
      else none

namespace State

/-- The live peers of a slot, in slot order. -/
def peers (s : State F) (i : ℕ) : List ℕ :=
  s.liveSlots.filter fun b => (s.pairs.lookup (i, b)).isSome

/-- The sorted hexadecimal texts of an interest map. -/
def interest (m : HashMap Icao F) : List String := (m.keys.image Icao.toHex).sort (· ≤ ·)

def clientEntry (s : State F) (i : ℕ) : ClientEntry F :=
  let r := s.receiver i
  let log := s.rxLog.getD i default
  let c := s.rxSync.getD i (0.0, 0.0)
  let outlierPercent : F := if 0.0 < c.1 + c.2 then 100.0 * c.2 / (c.1 + c.2) else 0.0
  { user := r.user
    uid := r.uid
    uuid := r.uuid
    coords := F64.fmt 6 r.geo.latDeg ++ "," ++ F64.fmt 6 r.geo.lonDeg
    lat := r.geo.latDeg
    lon := r.geo.lonDeg
    alt := r.geo.altM
    privacy := r.privacy
    connection := r.connectionInfo
    sourceIp := r.sourceIp
    sourcePort := r.sourcePort
    messageRate := F64.asU64 (F64.round (F64.ofNat log.msgs / (15.0 : F)))
    peerCount := (s.peers i).length
    badSyncTimeout := F64.asU64 (F64.round (s.badSyncs i * (150.0 : F)))
    outlierPercent := roundTo 10.0 outlierPercent
    badPeerList := ((s.peers i).filter fun b => (s.bias b).quarantined).map
      fun b => (s.receiver b).user
    syncInterest := interest log.sync
    mlatInterest := interest log.mlat }

def clientsJson (s : State F) : HashMap String (ClientEntry F) :=
  s.liveSlots.foldl (fun m i => m.insert (s.receiver i).user (s.clientEntry i)) ∅

def lastResult (s : State F) (now : F) (icao : Icao) (a : AcLog F) : Option (LastResult F) :=
  a.fixes.getLast?.map fun last =>
    { lastResult := roundTo 10.0 (now - last.t)
      lat := roundTo 1e4 last.pos.latDeg
      lon := roundTo 1e4 last.pos.lonDeg
      alt := s.altsFt.lookup icao
      headingSpeed := headingSpeed a.fixes last }

def aircraftEntry (s : State F) (now : F) (icao : Icao) (a : AcLog F) : AircraftEntry F :=
  let elapsedSeen := roundTo 10.0 (now - a.seen)
  let syncCount := F64.round (a.syncGood + a.syncBad)
  let tracking := a.rxMlat.keys ∪ a.rxSync.keys
  { icao := icao.toHex.toUpper
    elapsedSeen := elapsedSeen
    interesting := if a.rxMlat.len = 0 then 0 else 1
    tracking := tracking.card
    syncInterest := a.rxSync.len
    mlatInterest := a.rxMlat.len
    adsbSeen := a.rxSync.len
    mlatMessageCount := a.mlatMsgs
    mlatResultCount := a.results
    syncCount1min := syncCount
    syncBadPercent := F64.round (1000.0 * a.syncBad / (syncCount + 0.01)) / 10.0
    last := s.lastResult now icao a
    trackingReceivers :=
      if 600.0 < elapsedSeen then some ((tracking.sort (· ≤ ·)).map fun rx => (s.receiver rx).uid)
      else none }

/-- What one export period resets: message counts of live slots, and a decay of the sync
    counters. -/
def decayCounters (s : State F) : State F :=
  { s with
    rxLog := s.rxLog.mapIdx fun i log => if s.isAlive i then { log with msgs := 0 } else log
    acLog := s.acLog.mapVals fun _ a =>
      { a with syncGood := a.syncGood * 0.8, syncBad := a.syncBad * 0.8 } }

/-- clients.json and aircraft.json of this shard; run once per export period. -/
def stateJson (s : State F) (now : Instant) :
    State F × HashMap String (ClientEntry F) × HashMap Icao (AircraftEntry F) :=
  let t := s.scaledNow now
  let s := s.expireAt t
  (s.decayCounters, s.clientsJson, s.acLog.mapVals (s.aircraftEntry t))

end State

end Mlatd
