/-
  Receiver slots (state.rs, add_receiver to forget_pending): who a newcomer is, what it replaces,
  and what leaves the state with a receiver or with its clock.
-/
import Mlatd.State.Basic

namespace Mlatd

variable {F : Type} [F64 F]

/-! ## The map position -/

/-- mlat-server's map-position fudge: a 1/20° grid with an offset hashed from the user name;
    `none` under privacy. -/
def mapPosition (info : ReceiverInfo F) : Option (F × F) :=
  if info.privacy then none
  else
    let precision : F := 20.0
    let h : UInt64 := info.user.toUTF8.toList.foldl
      (fun h b => (h ^^^ b.toUInt64) * 0x100000001b3) 0xcbf29ce484222325
    let unit (x : UInt64) : F := F64.ofNat (x.toNat % 10000) / 10000.0
    let offX := (-1.0 : F) / precision + unit h / precision
    let offY := (-1.0 : F) / precision + unit (h >>> 20) / precision
    let snap (v off : F) : F := (F64.round (v * precision) / precision + off) * 100.0
    some (F64.round (snap info.geo.latDeg offX) / 100.0,
      F64.round (snap info.geo.lonDeg offY) / 100.0)

namespace State

/-! ## Leaving -/

/-- Drop a slot's in-flight timestamps. -/
def forgetPending (s : State F) (rx : ℕ) : State F :=
  { s with
    syncpoints := s.syncpoints.mapVals fun _ sp =>
      { sp with reporters := sp.reporters.filter fun r => decide (r.1 ≠ rx) }
    groups := s.groups.mapVals fun _ g =>
      { g with entries := g.entries.filter fun e => decide (e.1 ≠ rx) } }

/-- `pairs.retain(|(a, b), _| *a != rx && *b != rx)` -/
def dropPairs (s : State F) (rx : ℕ) : State F :=
  { s with pairs := s.pairs.retain fun k _ => decide (k.1 ≠ rx) && decide (k.2 ≠ rx) }

/-- The per-slot data that leaves with a receiver, its pairs and pending times apart. -/
def dropSlotLogs (s : State F) (rx : ℕ) : State F :=
  { s with
    acLog := s.acLog.mapVals fun _ a =>
      { a with rxMlat := a.rxMlat.erase rx, rxSync := a.rxSync.erase rx }
    rxLog := s.rxLog.modify rx fun log => { log with sync := ∅, mlat := ∅ }
    stampOffset := s.stampOffset.erase rx }

/-- The name and the slot given back. -/
def freeSlot (s : State F) (rx : ℕ) : State F :=
  let user := (s.receiver rx).user
  { s with
    byUser := if s.byUser.lookup user = some rx then s.byUser.erase user else s.byUser
    freeSlots := s.freeSlots ++ [rx] }

def removeReceiver (s : State F) (r : RxRef) : State F :=
  if !s.live r then s
  else
    let rx := r.idx
    let s := { s with alive := s.alive.set rx false }
    (((s.dropPairs rx).forgetPending rx).dropSlotLogs rx).freeSlot rx

def clockReset (s : State F) (r : RxRef) : State F :=
  if !s.live r then s else (s.dropPairs r.idx).forgetPending r.idx

/-! ## Arriving -/

/-- Both carry a uuid, and the same one. -/
def sameFeeder : Option String → Option String → Bool
  | some a, some b => a == b
  | _, _ => false

/-- The slot's connection has read from its feeder recently. `heard i` is what slot `i`'s
    connection last stored in its `last_read`. -/
def holderLive (s : State F) (now : Instant) (heard : ℕ → F) (i : ℕ) : Bool :=
  s.isAlive i && decide (s.scaledNow now - heard i < connectionLiveS * s.timeScale)

/-- The head of a uuid that tells two feeders of one name apart. -/
def uuidTag (uuid : String) : String :=
  String.ofList ((uuid.toList.filter Char.isAlphanum).take 8)

/-- The suffixed name of a second feeder. -/
def aliasOf (user uuid : String) : String := user ++ "-" ++ uuidTag uuid

/-- The identity rules: `none` refuses the newcomer, `some (replaced, user)` lets it in under
    `user`, over the slot `replaced`. -/
def identify (s : State F) (now : Instant) (heard : ℕ → F) (info : ReceiverInfo F) :
    Option (Option ℕ × String) :=
  match s.byUser.lookup info.user with
  | none => some (none, info.user)
  | some old =>
    if !sameFeeder (s.receiver old).uuid info.uuid && s.holderLive now heard old then
      match info.uuid.filter fun u => !u.isEmpty with
      | none => none
      | some uuid =>
        if (uuidTag uuid).isEmpty then none
        else
          match s.byUser.lookup (aliasOf info.user uuid) with
          | none => some (none, aliasOf info.user uuid)
          | some held =>
            let twin := decide ((s.receiver held).uuid = some uuid)
            if !twin && s.holderLive now heard held then none
            else some (some held, aliasOf info.user uuid)
    else some (some old, info.user)

/-- A slot for `info`, popped from the free list or new. -/
def takeSlot (s : State F) (info : ReceiverInfo F) : State F × ℕ :=
  let log : RxLog F := { msgs := 0, sync := ∅, mlat := ∅, mapPos := mapPosition info }
  match s.freeSlots.getLast? with
  | some i =>
    ({ s with
       freeSlots := s.freeSlots.dropLast
       receivers := s.receivers.set i info
       rxBias := s.rxBias.set i RxBias.default
       rxSync := s.rxSync.set i (0.0, 0.0)
       rxLog := s.rxLog.set i log
       gens := s.gens.set i (s.gen i + 1)
       alive := s.alive.set i true }, i)
  | none =>
    ({ s with
       receivers := s.receivers ++ [info]
       rxBias := s.rxBias ++ [RxBias.default]
       rxSync := s.rxSync ++ [(0.0, 0.0)]
       rxLog := s.rxLog ++ [log]
       gens := s.gens ++ [0]
       alive := s.alive ++ [true] }, s.receivers.length)

/-- The reference moves to the first receiver, and to a GPS receiver from one without. -/
def electReference (s : State F) (idx : ℕ) (gps : Bool) : State F :=
  { s with
    reference := match s.reference with
      | none => some idx
      | some r => if gps && !(s.receiver r).gps then some idx else some r }

/-- The slot is issued: taken, named, and offered as reference. -/
def issue (s : State F) (info : ReceiverInfo F) : State F × RxRef :=
  let (s, idx) := s.takeSlot info
  let s := { s with byUser := s.byUser.insert info.user idx }
  let s := s.electReference idx info.gps
  (s, { idx := idx, gen := s.gen idx })

/-- The slot `i` removed under its own generation. -/
def evict (s : State F) (i : ℕ) : State F := s.removeReceiver { idx := i, gen := s.gen i }

/-- A new receiver's slot; `none` when the user is already connected, that connection is live,
    and nothing tells the two apart. -/
def addReceiver (s : State F) (now : Instant) (heard : ℕ → F) (info : ReceiverInfo F) :
    State F × Option RxRef :=
  match s.identify now heard info with
  | none => (s, none)
  | some (replaced, user) =>
    let s := match replaced with
      | some i => s.evict i
      | none => s
    let (s, r) := s.issue { info with user := user }
    (s, some r)

end State

end Mlatd
