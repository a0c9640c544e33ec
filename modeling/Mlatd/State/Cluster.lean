/-
  Solving one cluster (state.rs, solve_cluster): the observations taken from it, the content-time
  stamp, the gates before and after the solve, and what a published fix writes.

  `solveCluster` is its stages in order: `selectObs` picks the observations, `stampCluster` moves
  the reference's offset, `attempt` decides whether to solve, `judge` whether the solution stands,
  and `selfTruth` or `publish` books it. The results leave as a list of output messages. Lines
  meant for the log, written under `MB_DEBUG_STAMP`, are left out.
-/
import Mlatd.State.Convert

namespace Mlatd

variable {F : Type} [F64 F]

/-- Minimum real time between solves of one aircraft, s. -/
def resolveBackoffS : F := 0.4
def maxErrM : F := 10000.0
/-- Throttle scale of the accuracy-scaled output rate, m. -/
def throttleScaleM : F := 1500.0
def gateSigmas : F := 3.0
def gateFloorM : F := 500.0

/-- One observation of a cluster, with what the source keeps beside it in `users`, `rx_ids`. -/
structure Used (F : Type) where
  rx : ℕ
  user : String
  obs : Observation F
  atScaled : F

instance : Inhabited (Used F) := ⟨⟨0, "", default, 0.0⟩⟩

/-- What a cluster offers the solve. -/
structure Selected (F : Type) where
  seen : List ℕ
  used : List (Used F)
  /-- Quarantined receivers and their arrival: scored, not used. -/
  benched : List (ℕ × F)

/-- The number of observations a solve takes at most. -/
def maxSolve : ℕ := 16

/-- The most precise `maxSolve` observations, in their order. -/
def capUsed (used : List (Used F)) : List (Used F) :=
  if maxSolve < used.length then
    let idx := ((List.range used.length).insertionSort fun a b =>
      F64.totalLe (used.getD a default).obs.errS (used.getD b default).obs.errS = true).take maxSolve
    (idx.insertionSort (· ≤ ·)).map fun i => used.getD i default
  else used

/-- The offset after a cluster whose stamp is `delta` past the reference's clock: snaps down,
    rises slowly. -/
def nextOffset (old : Option F) (delta : F) : F :=
  match old with
  | none => delta
  | some o => if delta < o then delta else o + 0.001 * (delta - o)

/-- What the gates and the publication of one solve read. -/
structure Attempt (F : Type) where
  icao : Icao
  isDf17 : Bool
  members : List ℕ
  used : List (Used F)
  benched : List (ℕ × F)
  stamp : F
  nowScaled : F
  altFt : ℤ
  altM : F
  /-- The aircraft's track before this attempt. -/
  track : Track F
  /-- The prediction a 4-receiver solve has to agree with. -/
  gate : Option (Prediction F)

/-- Within the backoff since the last attempt; a gated attempt has one of its own on top. -/
def Attempt.tooSoon (a : Attempt F) : Bool :=
  let lastAttempt := if a.gate.isSome then
    F64.max a.track.lastAttemptScaled a.track.lastGatedAttemptScaled
    else a.track.lastAttemptScaled
  decide (a.nowScaled - lastAttempt < resolveBackoffS)

/-! ## The track's prediction -/

/-- The longitude difference taken the short way round, degrees. -/
def shortWay (d : F) : F := F64.remEuclid (d + 540.0) 360.0 - 180.0

/-- Where the fixes put the aircraft at `now`: a weighted straight-line fit over the last
    `fitWindowS` of them, or reachability from the last. -/
def predictFixes (fixes : List (Fix F)) (altM now : F) : Option (Prediction F) :=
  match fixes.getLast? with
  | none => none
  | some last =>
    let horizon := now - last.t
    if ¬ (0.0 ≤ horizon ∧ horizon < trackStaleS) then none
    else
      let mLat : F := 111320.0
      let mLon := mLat * F64.max (F64.cos (F64.toRadians last.pos.latDeg)) 0.05
      let east (p : Geodetic F) : F := shortWay (p.lonDeg - last.pos.lonDeg) * mLon
      let north (p : Geodetic F) : F := (p.latDeg - last.pos.latDeg) * mLat
      let reachable : Prediction F :=
        { pos := { last.pos with altM := altM }
          reachM := maxSpeedMps * horizon
          sigmaM := last.errM }
      let window := fixes.filter fun f => decide (last.t - f.t ≤ fitWindowS)
      match window.head? with
      | none => none
      | some first =>
        if last.t - first.t < fitMinSpanS then some reachable
        else
          let w (f : Fix F) : F := 1.0 / F64.sq (F64.max f.errM 100.0)
          let sw := F64.sum (window.map w)
          let tMid := F64.sum (window.map fun f => w f * f.t) / sw
          let sxx := F64.sum (window.map fun f => w f * F64.sq (f.t - tMid))
          let eMid := F64.sum (window.map fun f => w f * east f.pos / sw)
          let nMid := F64.sum (window.map fun f => w f * north f.pos / sw)
          let ve := F64.sum (window.map fun f => w f * (f.t - tMid) * east f.pos / sxx)
          let vn := F64.sum (window.map fun f => w f * (f.t - tMid) * north f.pos / sxx)
          if maxSpeedMps < F64.hypot ve vn then some reachable
          else
            let tau := now - tMid
            some
              { pos :=
                  { latDeg := last.pos.latDeg + (nMid + vn * tau) / mLat
                    lonDeg := F64.remEuclid
                      (last.pos.lonDeg + (eMid + ve * tau) / mLon + 540.0) 360.0 - 180.0
                    altM := altM }
                reachM := 0.5 * maxAccelMps2 * tau * tau
                sigmaM := F64.sqrt (1.0 / sw + tau * tau / sxx) }

/-- The 4-receiver gate: three sigmas, at least `gateFloorM`, plus the reach. -/
def fourRxConsistent (pred : Prediction F) (sol : Solution F) : Bool :=
  let sigma := F64.hypot (fixErrM sol) pred.sigmaM
  decide (sol.pos.haversineM pred.pos ≤ F64.max (gateSigmas * sigma) gateFloorM + pred.reachM)

/-! ## Texts -/

/-- `{:0w}` of a signed number. -/
def padInt (w : ℕ) (k : ℤ) : String :=
  if k < 0 then "-" ++ F64.padNat (w - 1) k.natAbs else F64.padNat w k.natAbs

def isLeap (y : ℤ) : Bool := (y % 4 == 0 && y % 100 != 0) || y % 400 == 0

/-- The year that day `rem` after the first of January of `y` falls in, and the day in it. -/
def yearOf : ℕ → ℤ → ℤ → ℤ × ℤ
  | 0, y, rem => (y, rem)
  | n + 1, y, rem =>
    let len := if isLeap y then 366 else 365
    if rem < len then (y, rem) else yearOf n (y + 1) (rem - len)

/-- The month (from `m`) that day `rem` falls in, and the day in it. -/
def monthOf : List ℤ → ℕ → ℤ → ℕ × ℤ
  | [], m, rem => (m, rem)
  | len :: mls, m, rem => if rem < len then (m, rem) else monthOf mls (m + 1) (rem - len)

/-- Date and time columns of an SBS row: UTC of a unix stamp. -/
def sbsDatetime (unix : F) : String × String :=
  let secs := F64.asI64 unix
  let days := secs.tdiv 86400
  let (y, rem) := yearOf (days.toNat / 365 + 1) 1970 days
  let ml := [31, if isLeap y then 29 else 28, 31, 30, 31, 30, 31, 31, 30, 31, 30, 31]
  let (m, rem) := monthOf ml 0 rem
  let tod := secs % 86400
  let frac := F64.asI64 ((unix - F64.ofInt secs) * (1000.0 : F))
  (padInt 4 y ++ "/" ++ padInt 2 (m + 1) ++ "/" ++ padInt 2 (rem + 1),
    padInt 2 (tod / 3600) ++ ":" ++ padInt 2 (tod / 60 % 60) ++ ":" ++ padInt 2 (tod % 60) ++
      "." ++ padInt 3 frac)

/-- A row of the results file for position `pos`. -/
def csvRow (a : Attempt F) (pos : Geodetic F) (errM : F) : String :=
  let n := toString a.used.length
  F64.fmt 3 a.stamp ++ "," ++ a.icao.toHex ++ ",,," ++ F64.fmt 5 pos.latDeg ++ "," ++
    F64.fmt 5 pos.lonDeg ++ "," ++ toString a.altFt ++ "," ++ F64.fmt 1 errM ++ "," ++ n ++ "," ++
    n ++ ",\"" ++ ",".intercalate (a.used.map Used.user) ++ "\"," ++
    toString (a.used.length - 4) ++ ",\n"

def sbsRow (a : Attempt F) (pos : Geodetic F) : String :=
  let (d, tm) := sbsDatetime a.stamp
  "MSG,3,1,1," ++ a.icao.toHex.toUpper ++ ",1," ++ d ++ "," ++ tm ++ "," ++ d ++ "," ++ tm ++
    ",," ++ toString a.altFt ++ ",,," ++ F64.fmt 5 pos.latDeg ++ "," ++ F64.fmt 5 pos.lonDeg ++
    ",,,,,,0\r\n"

/-- The result message of mlat-client's old format. -/
def resultRow (a : Attempt F) (pos : Geodetic F) : String :=
  "\x7b\"result\":\x7b\"@\":" ++ F64.fmt 3 a.stamp ++ ",\"addr\":\"" ++ a.icao.toHex ++
    "\",\"lat\":" ++ F64.fmt 5 pos.latDeg ++ ",\"lon\":" ++ F64.fmt 5 pos.lonDeg ++ ",\"alt\":" ++
    toString a.altFt ++
    ",\"callsign\":null,\"squawk\":null,\"hdop\":0.0,\"vdop\":0.0,\"tdop\":0.0,\"gdop\":0.0" ++
    ",\"nstations\":" ++ toString a.used.length ++ "\x7d\x7d\n"

def selfTruthRow (a : Attempt F) (err errEstM : F) : String :=
  F64.fmt 3 a.stamp ++ "," ++ a.icao.toHex ++ "," ++ F64.fmt 1 err ++ "," ++
    F64.fmt 1 errEstM ++ "," ++ toString a.used.length ++ "\n"

namespace State

/-! ## Before the solve -/

/-- One arrival taken: the earliest of its receiver, skipped when the receiver is gone. -/
def selectOne (s : State F) (sel : Selected F) (a : Arrival F) : Selected F :=
  if sel.seen.contains a.rx then sel
  else
    let sel := { sel with seen := a.rx :: sel.seen }
    if s.isAlive a.rx = false then sel
    else if (s.bias a.rx).quarantined then { sel with benched := sel.benched ++ [(a.rx, a.t)] }
    else
      { sel with
        used := sel.used ++
          [{ rx := a.rx
             user := (s.receiver a.rx).user
             obs :=
              { rx := (s.receiver a.rx).ecef, tS := a.t + (s.bias a.rx).biasS, errS := a.sigma }
             atScaled := a.atScaled }] }

/-- One observation per receiver. -/
def selectObs (s : State F) (cluster : List (Arrival F)) : Selected F :=
  cluster.foldl s.selectOne { seen := [], used := [], benched := [] }

/-- The content-time stamp of a cluster, and the reference's offset moved by it. -/
def stampCluster (s : State F) (localRef : ℕ) (used : List (Used F)) : State F × F :=
  let stamp := (F64.foldMin (used.map Used.atScaled)).getD default
  let tRefMin := (F64.foldMin (used.map fun u => u.obs.tS)).getD default
  let off := nextOffset (s.stampOffset.lookup localRef) (stamp - tRefMin)
  ({ s with stampOffset := s.stampOffset.insert localRef off }, tRefMin + off)

def trackPrediction (s : State F) (icao : Icao) (altM now : F) : Option (Prediction F) :=
  (s.acLog.lookup icao).bind fun a => predictFixes a.fixes altM now

/-- The start of the solve: the last fix when fresh, else the receivers' centroid. -/
def startPoint (s : State F) (a : Attempt F) : Geodetic F :=
  let centroid : Geodetic F :=
    let n : F := F64.ofNat a.used.length
    let c : Ecef F := a.used.foldl (fun c u =>
      let e := (s.receiver u.rx).ecef
      ⟨c.x + e.x, c.y + e.y, c.z + e.z⟩) ⟨0.0, 0.0, 0.0⟩
    { (Ecef.toGeodetic { x := c.x / n, y := c.y / n, z := c.z / n }) with altM := a.altM }
  match a.track.lastPos with
  | some p =>
    if a.nowScaled - a.track.lastTimeScaled < 60.0 then { p with altM := a.altM } else centroid
  | none => centroid

/-- The attempt stamped in its own backoff. -/
def noteAttempt (s : State F) (a : Attempt F) : State F :=
  { s with
    tracks := s.tracks.modify a.icao fun t =>
      if a.gate.isSome then { t with lastGatedAttemptScaled := a.nowScaled }
      else { t with lastAttemptScaled := a.nowScaled } }

/-! ## After the solve -/

def reject (s : State F) : State F := { s with statsRejected := s.statsRejected + 1 }

/-- A fix too fast for the track; the fifth in a row resets the track. -/
def noteSpeedReject (s : State F) (icao : Icao) : State F :=
  let t := (s.tracks.lookup icao).getD Track.default
  if 5 ≤ t.speedRejects + 1 then
    { s with
      tracks := s.tracks.modify icao fun t => { t with lastPos := none, speedRejects := 0 }
      acLog := s.acLog.modify icao fun a => { a with fixes := [] } }
  else
    { s with
      tracks := s.tracks.modify icao fun t => { t with speedRejects := t.speedRejects + 1 } }

/-- Why a solution is not used; `tooFast` also counts against the track. -/
inductive Refusal where
  | uncertain
  | throttled
  | offTrack
  | tooFast

/-- The gates on a solution, in their order. -/
def judge (a : Attempt F) (sol : Solution F) : Option Refusal :=
  let elapsed := a.nowScaled - a.track.lastTimeScaled
  if maxErrM < sol.errEstM then some .uncertain
  else if a.track.lastPos.isSome ∧ elapsed / 20.0 < sol.errEstM / throttleScaleM then
    some .throttled
  else if a.gate.any fun g => !fourRxConsistent g sol then some .offTrack
  else
    match a.track.lastPos with
    | none => none
    | some last =>
      if elapsed < 30.0 ∧ 0.05 < elapsed ∧ 400.0 < sol.pos.haversineM last / elapsed then
        some .tooFast
      else none

/-- The bias of a benched receiver trained against a fix made without it. -/
def trainBenched (s : State F) (tx : Ecef F) (tTx : F) (b : ℕ × F) : State F :=
  { s with
    rxBias := s.rxBias.modify b.1 fun q =>
      let r := tTx + dist tx (s.receiver b.1).ecef / cMps - (b.2 + q.biasS)
      let biasS := q.biasS + 0.02 * r
      { q with biasS := biasS, madS := q.madS + 0.02 * (F64.abs (r - biasS) - q.madS) } }

/-- A quarantined receiver keeps training against tight fixes, so a recovered one re-admits
    itself. -/
def trainAllBenched (s : State F) (a : Attempt F) (sol : Solution F) : State F :=
  if 5 ≤ a.used.length ∧ sol.errEstM < 150.0 then
    let tx := Geodetic.toEcef { sol.pos with altM := a.altM }
    a.benched.foldl (fun s b => s.trainBenched tx sol.tTx b) s
  else s

/-- One residual learnt; DF17 groups train the bias only, not its scatter. -/
def learnOne (withMad : Bool) (s : State F) (o : ℕ × F) : State F :=
  { s with
    rxBias := s.rxBias.modify o.1 fun q =>
      let k : F := if q.n < 50 then 0.10 else 0.02
      let biasS := q.biasS + k * o.2
      { biasS := biasS
        madS := if withMad then q.madS + k * (F64.abs (o.2 - biasS) - q.madS) else q.madS
        n := q.n + 1 } }

/-- Receiver biases learnt from a well-observed, full-set solve. -/
def learnBias (s : State F) (a : Attempt F) (sol : Solution F) (withMad : Bool) : State F :=
  if sol.residualsS.length = a.used.length ∧ 5 ≤ a.used.length ∧ sol.errEstM < 500.0 then
    ((a.used.map Used.rx).zip sol.residualsS).foldl (learnOne withMad) s
  else s

/-- A DF17 group: its biases learnt, its error against the broadcast position emitted. -/
def selfTruth (s : State F) (a : Attempt F) (sol : Solution F) : State F × List (OutMsg F) :=
  if maxErrM < sol.errEstM then (s, [])
  else
    let s := s.learnBias a sol false
    match s.adsbPos.lookup a.icao with
    | some (claimed, at') =>
      if F64.abs (a.nowScaled - at') < 5.0 then
        (s, [.selfTruth (selfTruthRow a (sol.pos.haversineM claimed) sol.errEstM)])
      else (s, [])
    | none => (s, [])

/-- Fixes past the fit window leave from the front, two always stay. -/
def trimFixes (now : F) : List (Fix F) → List (Fix F)
  | f :: g :: h :: fs =>
    if fitWindowS < now - f.t then trimFixes now (g :: h :: fs) else f :: g :: h :: fs
  | fs => fs

/-- The published fix in the track and in the aircraft's log. -/
def noteFix (s : State F) (a : Attempt F) (sol : Solution F) : State F :=
  { s with
    tracks := s.tracks.modify a.icao fun t =>
      { t with
        lastPos := some sol.pos, lastTimeScaled := a.nowScaled
        lastAttemptScaled := a.nowScaled, speedRejects := 0 }
    acLog := s.acLog.upsert a.icao AcLog.default fun l =>
      { l with
        results := l.results + 1
        fixes := trimFixes a.nowScaled
          (l.fixes ++ [{ t := a.nowScaled, pos := sol.pos, errM := fixErrM sol }]) } }

/-- The smoothed twin of a fix. -/
def smooth (s : State F) (a : Attempt F) (sol : Solution F) : State F × Option (Geodetic F) :=
  if s.emitFiltered = false then (s, none)
  else
    match s.filters.lookup a.icao with
    | some f =>
      let u := f.update sol.pos a.stamp sol.errEstM
      ({ s with filters := s.filters.insert a.icao u.1 }, some u.2)
    | none =>
      ({ s with filters := s.filters.insert a.icao (TrackFilter.new sol.pos a.stamp) },
        some sol.pos)

/-- Connection uids of a group's live receivers in range of the fix. -/
def recipients (s : State F) (members : List ℕ) (fix : Geodetic F) : List ℕ :=
  (members.filter fun rx =>
    s.isAlive rx && decide ((s.receiver rx).geo.haversineM fix ≤ resultRangeM)).map
    fun rx => (s.receiver rx).uid

/-- The row of a fix, with its smoothed twin. -/
def row (s : State F) (a : Attempt F) (sol : Solution F) (smoothed : Option (Geodetic F)) :
    OutRow F where
  shard := s.shardId
  lat := sol.pos.latDeg
  lon := sol.pos.lonDeg
  icao := a.icao
  stamp := a.stamp
  csvLine := csvRow a sol.pos sol.errEstM
  filteredLine := smoothed.map fun p => csvRow a p sol.errEstM
  published :=
    { sbsLine := sbsRow a sol.pos
      resultLine := resultRow a sol.pos
      recipients := s.recipients a.members sol.pos }

/-- An accepted solution: learnt from, booked and emitted. -/
def publish (s : State F) (a : Attempt F) (sol : Solution F) : State F × List (OutMsg F) :=
  let s := { s with statsSolved := s.statsSolved + 1 }
  let s := s.learnBias a sol true
  let s := s.noteFix a sol
  let (s, smoothed) := s.smooth a sol
  (s, [.fix (s.row a sol smoothed)])

/-- What follows from the solve of an attempt. -/
def conclude (s : State F) (a : Attempt F) : Option (Solution F) → State F × List (OutMsg F)
  | none => (s.reject, [])
  | some sol =>
    match judge a sol with
    | some .tooFast => ((s.noteSpeedReject a.icao).reject, [])
    | some _ => (s.reject, [])
    | none =>
      let s := s.trainAllBenched a sol
      if a.isDf17 then s.selfTruth a sol else s.publish a sol

/-- The prediction a solve of `n` observations has to agree with: only 4-receiver solves do. -/
def gateFor (s : State F) (icao : Icao) (n : ℕ) (altM now : F) : Option (Prediction F) :=
  if n = 4 then s.trackPrediction icao altM now else none

/-- The attempt on a stamped cluster: none without an altitude, none within the backoff. -/
def attempt (env : Env F) (s : State F) (now : Instant) (g : Group F) (stamp : F)
    (sel : Selected F) : State F × List (OutMsg F) :=
  let nowScaled := s.scaledNow now
  let track := (s.tracks.lookup g.icao).getD Track.default
  let s := { s with tracks := s.tracks.insert g.icao track }
  match s.altsFt.lookup g.icao with
  | none => (s, [])
  | some altFt =>
    let altM : F := F64.ofInt altFt * 0.3048
    let a : Attempt F :=
      { icao := g.icao, isDf17 := g.df17, members := g.members, used := sel.used
        benched := sel.benched, stamp := stamp, nowScaled := nowScaled, altFt := altFt
        altM := altM, track := track
        gate := s.gateFor g.icao sel.used.length altM nowScaled }
    if a.tooSoon then (s, [])
    else
      let s := s.noteAttempt a
      s.conclude a (solveRobust env.solve (a.used.map Used.obs) altM (s.startPoint a))

/-- One cluster of a group, converted to the clock of `localRef`. -/
def solveCluster (env : Env F) (s : State F) (now : Instant) (g : Group F) (localRef : ℕ)
    (cluster : List (Arrival F)) : State F × List (OutMsg F) :=
  let sel := s.selectObs cluster
  if sel.used.length < 4 then (s, [])
  else
    let (s, stamp) := s.stampCluster localRef sel.used
    s.attempt env now g stamp { sel with used := capUsed sel.used }

/-- The clusters of a group in order, cluster `k` at the clock reading `clk k`. -/
def solveClusters (env : Env F) (clk : ℕ → Instant) (g : Group F) (localRef : ℕ) :
    State F → ℕ → List (List (Arrival F)) → State F × List (OutMsg F)
  | s, _, [] => (s, [])
  | s, k, c :: cs =>
    let (s, out) := s.solveCluster env (clk k) g localRef c
    let (s, outs) := solveClusters env clk g localRef s (k + 1) cs
    (s, out ++ outs)

/-- A group whose window has closed. -/
def solveGroup (env : Env F) (s : State F) (clk : ℕ → Instant) (g : Group F) :
    State F × List (OutMsg F) :=
  if g.members.length < 4 then (s, [])
  else
    let conv := s.conv g
    if conv.length < 4 then (s, [])
    else
      s.solveClusters env clk g (s.electRef g.members) 0 (clusters conv.length (sortArrivals conv))

end State

end Mlatd
