/-
  The process (main.rs): connections, shards and tasks that exchange messages.

  A shard task owns its state and takes its queue in order. A connection is followed from
  `shard_for` on, through the phases of `handle_client`; what it claims is given back by
  `release`, the slot first and the count after it. Every event is one atomic step of one party,
  and a run is any order of events; an event that does not fit its party's phase does nothing.
  Queues have no bound here: a full one delays its sender, which is one of the orders.

  A reply goes to the connection the message carries. `heard`, what each slot's connection last
  stored as read, is the environment's at each arrival.
-/
import Mlatd.Router
import Mlatd.Shard

namespace Mlatd

variable {F : Type} [F64 F]

/-! ## Messages -/

/-- What a feeder's line asks of its shard. -/
inductive Line (F : Type) where
  | sync (et ot : F) (em om : String) (atScaled : F)
  | mlat (t : F) (m : String) (atScaled : F)
  | clockReset

def Line.msg (rx : RxRef) : Line F → ShardMsg F
  | .sync et ot em om at' => .sync rx et ot em om at'
  | .mlat t m at' => .mlat rx t m at'
  | .clockReset => .clockReset rx

/-- What the stats and the export task ask. -/
inductive Query where
  | stats
  | syncJson
  | stateJson

def Query.msg : Query → ShardMsg F
  | .stats => .stats
  | .syncJson => .syncJson
  | .stateJson => .stateJson

/-- A message in a shard's queue, with the connection that waits for its reply. -/
inductive Mail (F : Type) where
  | addReceiver (info : ReceiverInfo F) (conn : ℕ)
  | removeReceiver (rx : RxRef)
  | line (rx : RxRef) (l : Line F)
  | receiverStats (rx : RxRef) (conn : ℕ)
  | query (q : Query)

def Mail.msg : Mail F → ShardMsg F
  | .addReceiver info _ => .addReceiver info
  | .removeReceiver rx => .removeReceiver rx
  | .line rx l => l.msg rx
  | .receiverStats rx _ => .receiverStats rx
  | .query q => q.msg

/-- The connection an arrival comes from. -/
def Mail.adder : Mail F → Option ℕ
  | .addReceiver _ conn => some conn
  | _ => none

structure ShardTask (F : Type) where
  state : State F
  queue : List (Mail F)

/-! ## Connections -/

/-- Where a connection's handler stands. -/
inductive Phase (F : Type) where
  /-- counted by the router, the arrival not yet sent -/
  | claimed (shard : ℕ) (info : ReceiverInfo F)
  /-- the arrival sent, no reply yet -/
  | waiting (shard : ℕ)
  | answered (shard : ℕ) (rx : Option RxRef)
  | running (shard : ℕ) (rx : RxRef)
  /-- in `release`, before its message -/
  | leaving (shard : ℕ) (rx : Option RxRef)
  /-- in `release`, after its message -/
  | removed (shard : ℕ) (rx : Option RxRef)
  /-- the count given back, the ticker not stopped -/
  | released (shard : ℕ) (rx : Option RxRef)
  | finished

namespace Phase

/-- The connection has claimed the shard and not given it back. -/
def claims (k : ℕ) : Phase F → Bool
  | .claimed shard _ | .waiting shard | .answered shard _ | .running shard _ | .leaving shard _
  | .removed shard _ => decide (shard = k)
  | .released _ _ | .finished => false

/-- The handle the connection has, and its shard. -/
def handle : Phase F → Option (ℕ × RxRef)
  | .answered shard rx | .leaving shard rx | .removed shard rx | .released shard rx =>
    rx.map fun r => (shard, r)
  | .running shard rx => some (shard, rx)
  | .claimed _ _ | .waiting _ | .finished => none

end Phase

/-- Why a connection's reader stops. -/
inductive Exit where
  | closed
  | idle
  | overlong
  | undecodable
  /-- the ticker found the slot taken over -/
  | replaced

/-- The task beside the reader that asks whether the slot is still held. -/
inductive Ticker where
  /-- not spawned, or aborted -/
  | off
  | resting
  | asking
  /-- it found the slot gone, told the reader and returned -/
  | told
  deriving DecidableEq

structure Conn (F : Type) where
  phase : Phase F
  ticker : Ticker

/-! ## Denials -/

/-- Why a handshake is refused. -/
inductive Denial where
  | noCompression
  | missingPosition
  | invalidPosition
  /-- the shard has the user already -/
  | connected (user : String)

/-- The line a refused client is written. -/
def Denial.render : Denial → String
  | .noCompression => "\x7b\"deny\":[\"no supported compression offered\"],\"reconnect_in\":300\x7d\n"
  | .missingPosition => "\x7b\"deny\":[\"missing position\"],\"reconnect_in\":300\x7d\n"
  | .invalidPosition => "\x7b\"deny\":[\"invalid position\"],\"reconnect_in\":300\x7d\n"
  | .connected user =>
    let user := String.ofList (user.toList.filter fun c => c != '"' && c != '\\')
    "\x7b\"deny\":[\"User " ++ user ++ " is already connected\"],\"reconnect_in\":160\x7d\n"

/-! ## The process -/

structure Server (F : Type) where
  router : Router F
  shards : List (ShardTask F)
  /-- Connections in the order of `shard_for`. -/
  conns : List (Conn F)

namespace Server

def boot (configs : List (Shard.Config F)) (baseDeg : F) (cap : ℕ) : Server F where
  router := Router.new (configs.map fun _ => ⟨0, 0⟩) baseDeg cap
  shards := configs.map fun c => { state := Shard.boot c, queue := [] }
  conns := []

def phase (s : Server F) (c : ℕ) : Option (Phase F) := s.conns[c]?.map Conn.phase

def setPhase (s : Server F) (c : ℕ) (φ : Phase F) : Server F :=
  { s with conns := s.conns.modify c fun conn => { conn with phase := φ } }

def ticker (s : Server F) (c : ℕ) : Option Ticker := s.conns[c]?.map Conn.ticker

def setTicker (s : Server F) (c : ℕ) (τ : Ticker) : Server F :=
  { s with conns := s.conns.modify c fun conn => { conn with ticker := τ } }

/-- `shard.tx.send(m)` -/
def send (s : Server F) (k : ℕ) (m : Mail F) : Server F :=
  { s with shards := s.shards.modify k fun t => { t with queue := t.queue ++ [m] } }

def setTask (s : Server F) (k : ℕ) (t : ShardTask F) : Server F :=
  { s with shards := s.shards.set k t }

/-- A reply reaches the connection that waits for it. -/
def answer (s : Server F) : Mail F → Reply F → Server F
  | .addReceiver _ c, .added rx =>
    match s.phase c with
    | some (.waiting k) => s.setPhase c (.answered k rx)
    | _ => s
  | .receiverStats _ c, .receiverStats stats =>
    match s.ticker c with
    | some .asking => s.setTicker c (if stats.isSome then .resting else .told)
    | _ => s
  | _, _ => s

inductive Event (F : Type) where
  /-- A handshake; `rank` orders the router's votes. -/
  | connect (info : ReceiverInfo F) (rank : ℕ → ℕ)
  | sendAdd (c : ℕ)
  /-- The connection reads its reply; `written` when the handshake reply reaches the feeder. -/
  | wake (c : ℕ) (written : Bool)
  | say (c : ℕ) (l : Line F)
  | probe (c : ℕ)
  | stop (c : ℕ) (why : Exit)
  | sendRemove (c : ℕ)
  | giveBack (c : ℕ)
  | finish (c : ℕ)
  /-- A shard takes the next message of its queue. -/
  | deliver (k : ℕ) (now : Instant) (heard : ℕ → F)
  | sweep (k : ℕ) (now : Instant) (window : ℕ) (rank : String → ℕ) (clk : String → ℕ → Instant)
  | ask (k : ℕ) (q : Query)
  /-- The stats task stores a shard's rate. -/
  | setRate (k : ℕ) (rate : ℕ)

/-- The handshake: a plausible position claims its shard. -/
def connect (s : Server F) (info : ReceiverInfo F) (rank : ℕ → ℕ) : Server F :=
  if plausiblePosition info.geo.latDeg info.geo.lonDeg info.geo.altM then
    let p := s.router.shardFor (info.geo.latDeg, info.geo.lonDeg) rank
    { s with router := p.1, conns := s.conns ++ [{ phase := .claimed p.2 info, ticker := .off }] }
  else s

/-- The ticker's stop needs its word; the others come from outside. -/
def mayStop (s : Server F) (c : ℕ) : Exit → Bool
  | .replaced => decide (s.ticker c = some .told)
  | _ => true

/-- One message of shard `k`'s queue handled, its reply sent. -/
def deliver (env : Env F) (s : Server F) (k : ℕ) (now : Instant) (heard : ℕ → F) : Server F :=
  match s.shards[k]? with
  | none => s
  | some t =>
    match t.queue with
    | [] => s
    | m :: queue =>
      let p := Shard.handle env t.state now heard m.msg
      (s.setTask k { state := p.1, queue := queue }).answer m p.2

def step (env : Env F) (s : Server F) : Event F → Server F
  | .connect info rank => s.connect info rank
  | .sendAdd c =>
    match s.phase c with
    | some (.claimed k info) => (s.send k (.addReceiver info c)).setPhase c (.waiting k)
    | _ => s
  | .wake c written =>
    match s.phase c with
    | some (.answered k (some rx)) =>
      if written then (s.setTicker c .resting).setPhase c (.running k rx)
      else s.setPhase c (.leaving k (some rx))
    | some (.answered k none) => s.setPhase c (.leaving k none)
    | _ => s
  | .say c l =>
    match s.phase c with
    | some (.running k rx) => s.send k (.line rx l)
    | _ => s
  | .probe c =>
    match s.ticker c, (s.phase c).bind Phase.handle with
    | some .resting, some (k, rx) => (s.send k (.receiverStats rx c)).setTicker c .asking
    | _, _ => s
  | .stop c why =>
    match s.phase c with
    | some (.running k rx) => if s.mayStop c why then s.setPhase c (.leaving k (some rx)) else s
    | _ => s
  | .sendRemove c =>
    match s.phase c with
    | some (.leaving k (some rx)) =>
      (s.send k (.removeReceiver rx)).setPhase c (.removed k (some rx))
    | some (.leaving k none) => s.setPhase c (.removed k none)
    | _ => s
  | .giveBack c =>
    match s.phase c with
    | some (.removed k rx) =>
      { s with router := s.router.release k }.setPhase c (.released k rx)
    | _ => s
  | .finish c =>
    match s.phase c with
    | some (.released _ _) => (s.setTicker c .off).setPhase c .finished
    | _ => s
  | .deliver k now heard => s.deliver env k now heard
  | .sweep k now window rank clk =>
    { s with shards := s.shards.modify k fun t =>
        { t with state := (t.state.sweep env now window rank clk).1 } }
  | .ask k q => s.send k (.query q)
  | .setRate k rate =>
    { s with router := { s.router with
        shards := s.router.shards.modify k fun h => { h with rate := rate } } }

/-- The process after a run. -/
abbrev run (env : Env F) (s : Server F) (es : List (Event F)) : Server F :=
  Run.exec (step env) s es

/-! ## The export -/

/-- sync.json of the work directory, every shard answering in this state; later shards overwrite
    earlier ones. -/
def syncJson (s : Server F) : HashMap String (SyncEntry F) :=
  s.shards.foldl (fun m t => t.state.syncJson ∪ m) ∅

/-- clients.json of the work directory. -/
def clientsJson (s : Server F) (now : Instant) : HashMap String (ClientEntry F) :=
  s.shards.foldl (fun m t => (t.state.stateJson now).2.1 ∪ m) ∅

end Server

end Mlatd
