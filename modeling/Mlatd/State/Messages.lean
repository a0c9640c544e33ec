/-
  Messages of a receiver (state.rs, on_sync, on_mlat, receiver_stats).

  `onSync` is its stages in order: `decodeSync` reads the two frames, `noteSync` books the report,
  `syncPositions` decodes the positions, `notePosition` stores what the aircraft claims, `onMlat`
  takes the even frame under `mlatAdsb`, and `trainSync` pairs the report with those already at
  the sync point. A stage that fails ends the message with what the stages before it did.
-/
import Mlatd.State.Receivers

namespace Mlatd

variable {F : Type} [F64 F]

namespace State

/-! ## on_mlat -/

/-- The aircraft of a raw frame and the altitude it carries; `none` drops the message. -/
def mlatFrame (mlatAdsb : Bool) (m : List UInt8) : Option (Icao × Option ℤ) :=
  match dfOf m with
  | some 17 => if mlatAdsb then (parseDf17Airborne m).map fun d => (d.icao, none) else none
  | some 4 => parseDf4 m
  | some 11 => (parseDf11 m).map fun i => (i, none)
  | _ => none

/-- The report in the export logs. -/
def noteMlat (s : State F) (rx : ℕ) (icao : Icao) (at' : F) : State F :=
  { s with
    rxLog := s.rxLog.modify rx fun log =>
      { log with msgs := log.msgs + 1, mlat := log.mlat.insert icao at' }
    acLog := s.acLog.upsert icao AcLog.default fun a =>
      { a with seen := at', mlatMsgs := a.mlatMsgs + 1, rxMlat := a.rxMlat.insert rx at' } }

/-- The report in the group of its message. -/
def joinGroup (s : State F) (now : Instant) (rx : ℕ) (icao : Icao) (m : List UInt8)
    (mHex : String) (tS at' : F) : State F :=
  { s with
    groups := s.groups.upsert mHex
      { created := now, icao := icao, df17 := m.head?.map (fun b : UInt8 => b >>> 3) == some 17,
        entries := [] }
      fun g => { g with entries := g.entries ++ [(rx, tS, at')] } }

/-- An mlat message: group identical frames across receivers. -/
def onMlat (env : Env F) (s : State F) (now : Instant) (r : RxRef) (tCounts : F) (mHex : String)
    (atScaled : F) : State F :=
  if !s.live r then s
  else
    match env.hexDecode mHex with
    | none => s
    | some m =>
      match mlatFrame s.mlatAdsb m with
      | none => s
      | some (icao, alt) =>
        let s := match alt with
          | some a => { s with altsFt := s.altsFt.insert icao a }
          | none => s
        let s := s.noteMlat r.idx icao atScaled
        s.joinGroup now r.idx icao m mHex (tCounts / (s.receiver r.idx).freqHz) atScaled

/-! ## on_sync -/

/-- The even and the odd frame of a sync message, of one aircraft. -/
def decodeSync (env : Env F) (emHex omHex : String) : Option (Df17Airborne × Df17Airborne) :=
  match env.hexDecode emHex, env.hexDecode omHex with
  | some em, some om =>
    match parseDf17Airborne em, parseDf17Airborne om with
    | some de, some do' =>
      if de.icao ≠ do'.icao ∨ de.odd = true ∨ do'.odd = false then none else some (de, do')
    | _, _ => none
  | _, _ => none

/-- The report in the export logs. -/
def noteSync (s : State F) (rx : ℕ) (icao : Icao) (at' : F) : State F :=
  { s with
    rxLog := s.rxLog.modify rx fun log =>
      { log with msgs := log.msgs + 1, sync := log.sync.insert icao at' }
    acLog := s.acLog.upsert icao AcLog.default fun a =>
      { a with seen := at', rxSync := a.rxSync.insert rx at' } }

/-- The positions of the even and the odd frame, each decoded as the more recent one. -/
def syncPositions (de do' : Df17Airborne) : Option (Geodetic F × Geodetic F) :=
  let even := (de.cprLat.toNat, de.cprLon.toNat)
  let odd := (do'.cprLat.toNat, do'.cprLon.toNat)
  let altM : F := F64.ofInt (de.altFt.getD 0) * 0.3048
  match globalDecodeAirborne (F := F) even odd false, globalDecodeAirborne (F := F) even odd true with
  | some pe, some po =>
    some ({ latDeg := pe.1, lonDeg := pe.2, altM := altM },
      { latDeg := po.1, lonDeg := po.2, altM := altM })
  | _, _ => none

/-- What the aircraft itself claims: its altitude and its position. -/
def notePosition (s : State F) (de : Df17Airborne) (pe : Geodetic F) (at' : F) : State F :=
  { s with
    altsFt := match de.altFt with
      | some alt => s.altsFt.insert de.icao alt
      | none => s.altsFt
    adsbPos := s.adsbPos.insert de.icao (pe, at') }

/-- `pairs.entry((a, b)).or_default().push(ta, tb)` -/
def pushPair (s : State F) (a b : ℕ) (ta tb : F) : State F × Bool :=
  let p := ((s.pairs.lookup (a, b)).getD PairModel.default).push ta tb
  ({ s with pairs := s.pairs.insert (a, b) p.1 }, p.2)

/-- Count one training observation of the receiver and the aircraft. -/
def countSync (s : State F) (rx : ℕ) (icao : Icao) (ok : Bool) : State F :=
  { s with
    rxSync := s.rxSync.modify rx fun c => if ok then (c.1 + 1.0, c.2) else (c.1, c.2 + 1.0)
    acLog := s.acLog.upsert icao AcLog.default fun a =>
      if ok then { a with syncGood := a.syncGood + 1.0 }
      else { a with syncBad := a.syncBad + 1.0 }
    statsSyncObs := s.statsSyncObs + 1 }

/-- One observation of an unordered pair, pushed in both directions. -/
def trainOnce (s : State F) (icao : Icao) (rx rx2 : ℕ) (ta tb : F) : State F :=
  let p := s.pushPair rx rx2 ta tb
  let q := p.1.pushPair rx2 rx tb ta
  q.1.countSync rx icao p.2

/-- The even and the odd observation with one earlier reporter. -/
def trainPair (icao : Icao) (rx : ℕ) (te to' : F) (s : State F) (other : ℕ × F × F) : State F :=
  let (rx2, te2, to2) := other
  if rx2 = rx ∨ s.isAlive rx2 = false then s
  else (s.trainOnce icao rx rx2 te te2).trainOnce icao rx rx2 to' to2

/-- The most reporters a sync point takes. -/
def maxReporters : ℕ := 15

/-- The sync point of a message, as `entry(key).or_insert_with` leaves it. -/
def syncpointAt (s : State F) (now : Instant) (key : String × String) : SyncPoint F :=
  (s.syncpoints.lookup key).getD { created := now, reporters := [] }

/-- The report joins its sync point and trains every pair it now shares the event with. -/
def trainSync (s : State F) (now : Instant) (rx : ℕ) (icao : Icao) (key : String × String)
    (te to' : F) : State F :=
  let sp := s.syncpointAt now key
  if maxReporters ≤ sp.reporters.length then
    { s with syncpoints := s.syncpoints.insert key sp }
  else
    let s := { s with
      syncpoints := s.syncpoints.insert key
        { sp with reporters := sp.reporters ++ [(rx, te, to')] } }
    sp.reporters.foldl (trainPair icao rx te to') s

/-- A transmit time in the receiver's clock: its reading less the propagation delay. -/
def transmitTime (info : ReceiverInfo F) (counts : F) (pos : Geodetic F) : F :=
  counts / info.freqHz - dist info.ecef pos.toEcef / cMps

/-- A sync message: the same even/odd pair seen by several receivers trains their clocks. -/
def onSync (env : Env F) (s : State F) (now : Instant) (r : RxRef) (et ot : F)
    (emHex omHex : String) (atScaled : F) : State F :=
  if !s.live r then s
  else
    match decodeSync env emHex omHex with
    | none => s
    | some (de, do') =>
      let s := s.noteSync r.idx de.icao atScaled
      match syncPositions de do' with
      | none => s
      | some (pe, po) =>
        let info := s.receiver r.idx
        let te := transmitTime info et pe
        let to' := transmitTime info ot po
        let s := s.notePosition de pe atScaled
        let s := if s.mlatAdsb then s.onMlat env now r et emHex atScaled else s
        s.trainSync now r.idx de.icao (emHex, omHex) te to'

/-! ## receiver_stats -/

/-- The slots `rx` has a live pair with. -/
def livePeers (s : State F) (rx : ℕ) : Finset ℕ :=
  (s.pairs.keys.filter fun k => k.1 = rx ∧ s.isAlive k.2 = true).image Prod.snd

/-- Peer count, outlier percentage and quarantine of one receiver. Reading decays the counters. -/
def receiverStats (s : State F) (r : RxRef) : State F × Option (ℕ × F × Bool) :=
  if !s.live r then (s, none)
  else
    let c := s.rxSync.getD r.idx (0.0, 0.0)
    let outlierPercent := if 0.0 < c.1 + c.2 then 100.0 * c.2 / (c.1 + c.2) else 0.0
    ({ s with rxSync := s.rxSync.set r.idx (c.1 * 0.25, c.2 * 0.25) },
      some ((s.livePeers r.idx).card, outlierPercent, (s.bias r.idx).quarantined))

end State

end Mlatd
