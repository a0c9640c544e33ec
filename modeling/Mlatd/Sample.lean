/-
  A shard over rational arithmetic and feeders to connect to it: what runs on fixed inputs start
  from. The clock runs at real speed from zero; the inner solver finds nothing, or one place.
-/
import Mlatd.Lib.Hex
import Mlatd.Shard

namespace Mlatd.Sample

def env : Env ℚ := { hexDecode := Hex.decode, solve := fun _ _ _ => none }

def config : Shard.Config ℚ :=
  { shardId := 0, timeScale := 1, mlatAdsb := false, emitFiltered := false, epoch := (0, 0),
    now := 0 }

/-- A feeder with a 12 MHz clock and no GPS, at `geo`. -/
def feederAt (geo : Geodetic ℚ) (user : String) (uuid : Option String) : ReceiverInfo ℚ :=
  { user := user, uid := 0, uuid := uuid, privacy := true, connectionInfo := "", sourceIp := "",
    sourcePort := 0, geo := geo, ecef := geo.toEcef, freqHz := 12000000, gps := false,
    jitterS := 150 / 1000000000 }

def feeder (user : String) (uuid : Option String) : ReceiverInfo ℚ :=
  feederAt ⟨48, 2, 100⟩ user uuid

/-- `n` seconds on the clock. -/
def seconds (n : ℕ) : Instant := n * 1000000000

/-- A message handled at second `t`, every connection last heard from at second `heard`. -/
def at' (t heard : ℕ) (m : ShardMsg ℚ) : Shard.Event ℚ := .msg (seconds t) (fun _ => heard) m

/-- A feeder arrives at second `t`, every connection heard from just then. -/
def arrives (t : ℕ) (user : String) (uuid : Option String) : Shard.Event ℚ :=
  at' t t (.addReceiver (feeder user uuid))

/-- The all-call reply of one aircraft: it carries an address and no altitude. -/
def allCall : String := "5d3944f1000000"

/-- One aircraft's even and odd position frame. -/
def evenFrame : String := "8d40621d58c382d690c8ac2863a7"
def oddFrame : String := "8d40621d58c386435cc412692ad6"

/-- Slot `rx` reports the sync pair as heard at second `t` of its clock. -/
def hearsAt (rx t : ℕ) (even : String) : Shard.Event ℚ :=
  at' 10 10 (.sync ⟨rx, 0⟩ (12000000 * t : ℕ) (12000000 * t : ℕ) even oddFrame 10)

/-! ## A group of five -/

/-- The inner solver finds a good fit, whatever it is asked. -/
def fitting : Env ℚ :=
  { env with
    solve := fun _ altM _ => some
      { pos := ⟨48, 2, altM⟩, rmsS := 0, errEstM := 10, errGeomM := 10, iterations := 1, tTx := 0,
        residualsS := [] } }

/-- An altitude reply of one aircraft, at 36000 ft. -/
def altitudeReply : String := "2000171806a983"

/-- Five feeders train against the first and report one frame, whose group a sweep then solves. -/
def fiveReport : List (Shard.Event ℚ) :=
  ([("Zero", 10), ("One", 11), ("Two", 12), ("Three", 13), ("Four", 14)].map fun u =>
    at' 1 1 (.addReceiver { feeder u.1 none with uid := u.2 })) ++
  [hearsAt 0 1 evenFrame, hearsAt 0 1 evenFrame.toUpper] ++
  ([0, 10, 20, 30, 40].flatMap fun t =>
    [hearsAt 1 t evenFrame, hearsAt 2 t evenFrame, hearsAt 3 t evenFrame.toUpper,
      hearsAt 4 t evenFrame.toUpper]) ++
  ([0, 1, 2, 3, 4].map fun rx => at' 11 11 (.mlat ⟨rx, 0⟩ 12000000 altitudeReply 11)) ++
  [.sweep (seconds 13) (seconds 1) (fun _ => 0) (fun _ _ => seconds 13)]

end Mlatd.Sample
