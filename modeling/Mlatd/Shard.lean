/-
  A shard's loop (shard.rs, run_shard): one message of the queue or one tick of the sweep at a
  time, against a state nobody else touches.

  An event carries the readings its call takes from outside the state: the clock, what each
  slot's connection last stored as read (`heard`), the order a hash map is walked in.
-/
import Mlatd.Lib.Run
import Mlatd.State.Export

namespace Mlatd

variable {F : Type} [F64 F]

inductive ShardMsg (F : Type) where
  | addReceiver (info : ReceiverInfo F)
  | removeReceiver (rx : RxRef)
  | sync (rx : RxRef) (et ot : F) (em om : String) (atScaled : F)
  | mlat (rx : RxRef) (t : F) (m : String) (atScaled : F)
  | clockReset (rx : RxRef)
  | receiverStats (rx : RxRef)
  | stats
  | syncJson
  | stateJson

/-- What the sender of a message hears back. -/
inductive Reply (F : Type) where
  | nothing
  | added (rx : Option RxRef)
  | receiverStats (stats : Option (ℕ × F × Bool))
  | stats (live syncObs solved rejected : ℕ)
  | syncJson (json : HashMap String (SyncEntry F))
  | stateJson (clients : HashMap String (ClientEntry F))
      (aircraft : HashMap Icao (AircraftEntry F))

namespace Shard

/-- The arguments a shard's state is created with. -/
structure Config (F : Type) where
  shardId : ℕ
  timeScale : F
  mlatAdsb : Bool
  emitFiltered : Bool
  epoch : F × Instant
  now : Instant

def boot (c : Config F) : State F :=
  State.new c.shardId c.timeScale c.mlatAdsb c.emitFiltered c.epoch c.now

/-- One message handled. -/
def handle (env : Env F) (s : State F) (now : Instant) (heard : ℕ → F) :
    ShardMsg F → State F × Reply F
  | .addReceiver info => let p := s.addReceiver now heard info; (p.1, .added p.2)
  | .removeReceiver r => (s.removeReceiver r, .nothing)
  | .sync r et ot em om at' => (s.onSync env now r et ot em om at', .nothing)
  | .mlat r t m at' => (s.onMlat env now r t m at', .nothing)
  | .clockReset r => (s.clockReset r, .nothing)
  | .receiverStats r => let p := s.receiverStats r; (p.1, .receiverStats p.2)
  | .stats => (s, .stats s.liveReceivers s.statsSyncObs s.statsSolved s.statsRejected)
  | .syncJson => (s, .syncJson s.syncJson)
  | .stateJson => let p := s.stateJson now; (p.1, .stateJson p.2.1 p.2.2)

inductive Event (F : Type) where
  | msg (now : Instant) (heard : ℕ → F) (m : ShardMsg F)
  | sweep (now : Instant) (window : ℕ) (rank : String → ℕ) (clk : String → ℕ → Instant)

/-- Neither an arrival nor a departure. -/
def Event.isQuiet : Event F → Bool
  | .msg _ _ (.addReceiver _) | .msg _ _ (.removeReceiver _) => false
  | _ => true

/-- The state after one turn of the loop. -/
def step (env : Env F) (s : State F) : Event F → State F
  | .msg now heard m => (handle env s now heard m).1
  | .sweep now window rank clk => (s.sweep env now window rank clk).1

/-- The slot an event issues, if it issues one. -/
def issued (s : State F) : Event F → Option RxRef
  | .msg now heard (.addReceiver info) => (s.addReceiver now heard info).2
  | _ => none

/-- The state after a run of the loop. -/
abbrev run (env : Env F) (s : State F) (es : List (Event F)) : State F :=
  Run.exec (step env) s es

end Shard

end Mlatd
