/-
  Per-shard server state (state.rs): the records a shard keeps and its constants.

  `F` is the number type of `f64`. A clock reading (`Instant`) is a number of nanoseconds; the
  scaled output clock is computed from it. Vectors are lists, indexed with a default: every index
  the code uses is in bounds in every reachable state (`Registry.Invariant`), so the default is
  never read. Hash maps are finite maps without an order.

  What the shard calls but does not contain is `Env`: the hex decoder of crate hex and the inner
  position solve. `last_read`, the cell a connection stores its last read into at any time, is not
  a field here: `addReceiver` takes the reading of each slot's cell as an argument.
-/
import Mlatd.Lib.Finmap
import Mlatd.Modes.Decode
import Mlatd.Modes.Cpr
import Mlatd.ClockSync
import Mlatd.Track
import Mlatd.Solve

namespace Mlatd

variable {F : Type} [F64 F]

/-- A reading of the monotonic clock, ns. -/
abbrev Instant := ℕ

/-- `a.duration_since(b)`, zero when `b` is later. -/
def Instant.since (a b : Instant) : ℕ := a - b

/-- Code outside the shard that it calls. -/
structure Env (F : Type) where
  /-- `hex::decode` -/
  hexDecode : String → Option (List UInt8)
  solve : Solver F

structure ReceiverInfo (F : Type) where
  user : String
  uid : ℕ
  uuid : Option String
  privacy : Bool
  connectionInfo : String
  sourceIp : String
  sourcePort : ℕ
  geo : Geodetic F
  ecef : Ecef F
  freqHz : F
  gps : Bool
  /-- Expected timing error fed to the weighted solve, s. -/
  jitterS : F

instance : Inhabited (ReceiverInfo F) :=
  ⟨⟨"", 0, none, false, "", "", 0, default, default, 0.0, false, 0.0⟩⟩

/-- A connection that has read from its feeder this recently is live, s. -/
def connectionLiveS : F := 150.0

/-- A receiver slot plus the generation it was issued with. -/
structure RxRef where
  idx : ℕ
  gen : UInt32
  deriving DecidableEq

/-- Per-aircraft publication state. -/
structure Track (F : Type) where
  lastPos : Option (Geodetic F)
  lastTimeScaled : F
  lastAttemptScaled : F
  /-- Last attempt at a track-gated 4-receiver solve. -/
  lastGatedAttemptScaled : F
  /-- Consecutive speed-gate rejections. -/
  speedRejects : ℕ

def Track.default : Track F := ⟨none, 0.0, 0.0, 0.0, 0⟩

structure SyncPoint (F : Type) where
  created : Instant
  /-- (receiver, corrected even transmit time, corrected odd transmit time) -/
  reporters : List (ℕ × F × F)

structure Group (F : Type) where
  created : Instant
  icao : Icao
  df17 : Bool
  /-- (receiver, arrival time in its clock s, output clock at insertion) -/
  entries : List (ℕ × F × F)

/-- Learned per-receiver systematic timing bias. -/
structure RxBias (F : Type) where
  biasS : F
  /-- The non-correctable scatter. -/
  madS : F
  n : ℕ

def RxBias.default : RxBias F := ⟨0.0, 0.0, 0⟩

instance : Inhabited (RxBias F) := ⟨RxBias.default⟩

def quarantineMadS : F := 1.5e-6
def quarantineMinN : ℕ := 30

/-- The verdict on a receiver: enough observations, too much scatter. -/
def RxBias.quarantined (b : RxBias F) : Bool :=
  decide (quarantineMinN ≤ b.n) && decide (quarantineMadS < b.madS)

/-- An aircraft not heard for this long leaves every per-aircraft map, s. -/
def acExpireS : F := 300.0
/-- How often the sweep runs the expiry pass, s. -/
def expireEveryS : F := 10.0
/-- How long a receiver counts as hearing an aircraft, s. -/
def interestS : F := 60.0
/-- A group member farther than this from the fix did not hear that aircraft, m. -/
def resultRangeM : F := 600000.0

/-- Per-receiver export bookkeeping. -/
structure RxLog (F : Type) where
  msgs : ℕ
  sync : HashMap Icao F
  mlat : HashMap Icao F
  mapPos : Option (F × F)

instance : Inhabited (RxLog F) := ⟨⟨0, ∅, ∅, none⟩⟩

/-- A published fix as the track remembers it. -/
structure Fix (F : Type) where
  t : F
  pos : Geodetic F
  errM : F

/-- Per-aircraft export bookkeeping. -/
structure AcLog (F : Type) where
  seen : F
  syncGood : F
  syncBad : F
  mlatMsgs : ℕ
  results : ℕ
  /-- Published fixes, oldest first. -/
  fixes : List (Fix F)
  /-- receiver slot → last scaled time it reported an mlat frame -/
  rxMlat : HashMap ℕ F
  /-- receiver slot → last scaled time it reported a sync pair -/
  rxSync : HashMap ℕ F

def AcLog.default : AcLog F := ⟨0.0, 0.0, 0.0, 0, 0, [], ∅, ∅⟩

/-- Where the track expects the aircraft. -/
structure Prediction (F : Type) where
  pos : Geodetic F
  reachM : F
  sigmaM : F

def fitWindowS : F := 10.0
def fitMinSpanS : F := 2.0
def maxSpeedMps : F := 400.0
def maxAccelMps2 : F := 15.0
def trackStaleS : F := 30.0

/-- A fix's error for the track, m. -/
def fixErrM (sol : Solution F) : F := F64.max sol.errEstM sol.errGeomM

/-- A published fix, fanned out to CSV, SBS and clients. -/
structure Published where
  sbsLine : String
  resultLine : String
  /-- Connection uids that get `resultLine`. -/
  recipients : List ℕ

/-- True when the connection with this uid should get the result line. -/
def Published.isFor (p : Published) (uid : ℕ) : Bool := p.recipients.contains uid

/-- What a shard emits for one accepted fix. -/
structure OutRow (F : Type) where
  shard : ℕ
  lat : F
  lon : F
  icao : Icao
  stamp : F
  csvLine : String
  filteredLine : Option String
  published : Published

/-- Shard to output task. -/
inductive OutMsg (F : Type) where
  | fix (row : OutRow F)
  | selfTruth (line : String)

structure State (F : Type) where
  shardId : ℕ
  adsbPos : HashMap Icao (Geodetic F × F)
  mlatAdsb : Bool
  /-- Offset between the output clock and the reference receiver's clock. -/
  stampOffset : HashMap ℕ F
  rxBias : List (RxBias F)
  /-- (accepted, gate-rejected) sync observations, decayed at each read -/
  rxSync : List (F × F)
  rxLog : List (RxLog F)
  acLog : HashMap Icao (AcLog F)
  receivers : List (ReceiverInfo F)
  /-- Slot generation, bumped on every reuse. -/
  gens : List UInt32
  alive : List Bool
  freeSlots : List ℕ
  byUser : HashMap String ℕ
  reference : Option ℕ
  pairs : HashMap (ℕ × ℕ) (PairModel F)
  syncpoints : HashMap (String × String) (SyncPoint F)
  groups : HashMap String (Group F)
  altsFt : HashMap Icao ℤ
  tracks : HashMap Icao (Track F)
  filters : HashMap Icao (TrackFilter F)
  emitFiltered : Bool
  t0Real : Instant
  t0Unix : F
  timeScale : F
  lastExpire : Instant
  statsSolved : ℕ
  statsRejected : ℕ
  statsSyncObs : ℕ

namespace State

def new (shardId : ℕ) (timeScale : F) (mlatAdsb emitFiltered : Bool) (epoch : F × Instant)
    (now : Instant) : State F where
  shardId := shardId
  adsbPos := ∅
  mlatAdsb := mlatAdsb
  stampOffset := ∅
  rxBias := []
  rxSync := []
  rxLog := []
  acLog := ∅
  receivers := []
  gens := []
  alive := []
  freeSlots := []
  byUser := ∅
  reference := none
  pairs := ∅
  syncpoints := ∅
  groups := ∅
  altsFt := ∅
  tracks := ∅
  filters := ∅
  emitFiltered := emitFiltered
  t0Real := epoch.2
  t0Unix := epoch.1
  timeScale := timeScale
  lastExpire := now
  statsSolved := 0
  statsRejected := 0
  statsSyncObs := 0

/-- The output clock: real time, scaled. -/
def scaledNow (s : State F) (now : Instant) : F :=
  s.t0Unix + F64.ofNanos (now.since s.t0Real) * s.timeScale

def receiver (s : State F) (i : ℕ) : ReceiverInfo F := s.receivers.getD i default

def isAlive (s : State F) (i : ℕ) : Bool := s.alive.getD i false

def gen (s : State F) (i : ℕ) : UInt32 := s.gens.getD i 0

def bias (s : State F) (i : ℕ) : RxBias F := s.rxBias.getD i default

/-- The slot is held under the generation of `r`. -/
def live (s : State F) (r : RxRef) : Bool :=
  decide (r.idx < s.receivers.length) && s.isAlive r.idx && decide (s.gen r.idx = r.gen)

def liveReceivers (s : State F) : ℕ := (s.alive.filter id).length

end State

end Mlatd
