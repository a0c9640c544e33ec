/-
  Selective traffic (traffic.rs) and the lines of a client (main.rs, process_line_tx): what a
  receiver is asked to send, and what one line of it does.

  A client is asked for every aircraft it offers, over the queue of its connection's writer. The
  queue is bounded and a line that finds it full is dropped: `Queue` is its answer to each line.
  What reads and writes text outside the server is `Text`.
-/
import Mathlib.Data.Finset.Card
import Mlatd.Lib.Hex
import Mlatd.Shard

namespace Mlatd

variable {F : Type} [F64 F]

/-! ## JSON values -/

inductive Json (F : Type) where
  | null
  | bool (b : Bool)
  | num (x : F)
  | str (s : String)
  | arr (xs : List (Json F))
  | obj (kvs : List (String × Json F))

namespace Json

/-- `v.get(key)` -/
def get (v : Json F) (key : String) : Option (Json F) :=
  match v with
  | .obj kvs => (kvs.find? fun kv => kv.1 == key).map Prod.snd
  | _ => none

/-- `v[key]` -/
def index (v : Json F) (key : String) : Json F := (v.get key).getD .null

def asF64 : Json F → Option F
  | .num x => some x
  | _ => none

def asStr : Json F → Option String
  | .str s => some s
  | _ => none

def asArray : Json F → Option (List (Json F))
  | .arr xs => some xs
  | _ => none

/-- The keys of an object. -/
def keys : Json F → List String
  | .obj kvs => kvs.map Prod.fst
  | _ => []

/-- The texts of an array, its other elements left out. -/
def texts (v : Json F) : List String := (v.asArray.getD []).filterMap asStr

end Json

/-- Code outside the server that reads and writes text. -/
structure Text (F : Type) where
  /-- `serde_json::from_slice` -/
  parseJson : List UInt8 → Option (Json F)
  /-- `serde_json::to_string` of a list of strings -/
  jsonStrings : List String → String
  /-- `str::to_lowercase` -/
  toLowercase : String → String

/-! ## Traffic of a connection -/

/-- An ADS-B aircraft leaves a receiver's sync set after this long without a sync pair, s. -/
def syncIdleS : F := 30.0
/-- A stopped aircraft may be requested again after this long, s. -/
def suppressS : F := 60.0
/-- Most aircraft one connection may have requested at once. -/
def maxRequested : ℕ := 20000

structure Traffic (F : Type) where
  cap : ℕ
  /-- Aircraft this connection has been told to send (start_sending). -/
  requested : Finset String
  /-- ADS-B aircraft whose sync pairs we keep: icao → last sync time. -/
  sync : HashMap String F
  /-- ADS-B aircraft we told the client to stop: icao → when. -/
  suppressed : HashMap String F

def isHexDigit (c : Char) : Bool :=
  ('0' ≤ c && c ≤ '9') || ('a' ≤ c && c ≤ 'f') || ('A' ≤ c && c ≤ 'F')

/-- Six hexadecimal digits. -/
def isIcaoText (icao : String) : Bool :=
  decide (icao.utf8ByteSize = 6) && icao.toList.all isHexDigit

namespace Traffic

def new (cap : ℕ) : Traffic F := { cap := cap, requested := ∅, sync := ∅, suppressed := ∅ }

/-- Idle aircraft leave the sync set; whether it then has room. -/
def hasRoom (t : Traffic F) (now : F) : Traffic F × Bool :=
  if t.cap = 0 then (t, true)
  else
    let sync := t.sync.retain fun _ at' => decide (now - at' < syncIdleS)
    ({ t with sync := sync }, decide (sync.len < t.cap))

/-- `requested.insert(icao)` -/
def request (t : Traffic F) (icao : String) : Traffic F × Bool :=
  ({ t with requested := insert icao t.requested }, decide (icao ∉ t.requested))

/-- The client offers an aircraft; whether it should be started now. -/
def offered (t : Traffic F) (icao : String) (now : F) : Traffic F × Bool :=
  if isIcaoText icao = false then (t, false)
  else if maxRequested ≤ t.requested.card ∧ icao ∉ t.requested then (t, false)
  else
    match t.suppressed.lookup icao with
    | none => t.request icao
    | some since =>
      if now - since < suppressS then (t, false)
      else
        let (t, room) := t.hasRoom now
        if room then
          { t with suppressed := t.suppressed.erase icao }.request icao
        else (t, false)

/-- A sync pair arrived for an ADS-B aircraft; whether it should be forwarded. When not, the
    client is to stop sending the aircraft. -/
def onSync (t : Traffic F) (icao : String) (now : F) : Traffic F × Bool :=
  if t.cap = 0 then (t, true)
  else
    match t.sync.lookup icao with
    | some _ => ({ t with sync := t.sync.insert icao now }, true)
    | none =>
      let (t, room) := t.hasRoom now
      if room then ({ t with sync := t.sync.insert icao now }, true)
      else
        let suppressed := t.suppressed.retain fun _ at' => decide (now - at' < 10.0 * suppressS)
        ({ t with
           requested := t.requested.erase icao
           suppressed := suppressed.insert icao now }, false)

/-- The client reports an aircraft gone. -/
def lost (t : Traffic F) (icao : String) : Traffic F :=
  { t with requested := t.requested.erase icao, sync := t.sync.erase icao }

end Traffic

/-! ## The aircraft of a frame -/

/-- The text from byte `n` on; none inside a character or past the end. -/
def dropBytes : ℕ → List Char → Option (List Char)
  | 0, cs => some cs
  | _ + 1, [] => none
  | n + 1, c :: cs => if c.utf8Size ≤ n + 1 then dropBytes (n + 1 - c.utf8Size) cs else none

/-- The first `n` bytes of a text; none inside a character or past the end. -/
def takeBytes : ℕ → List Char → Option (List Char)
  | 0, _ => some []
  | _ + 1, [] => none
  | n + 1, c :: cs =>
    if c.utf8Size ≤ n + 1 then (takeBytes (n + 1 - c.utf8Size) cs).map (c :: ·) else none

/-- `s.get(a..b)` -/
def byteSlice (s : String) (a b : ℕ) : Option (List Char) :=
  (dropBytes a s.toList).bind (takeBytes (b - a))

/-- `u8::from_str_radix(_, 16)` of two bytes: digits, or one after a plus. -/
def hexU8 : List Char → Option ℕ
  | ['+', c] => (Hex.digit c).map UInt8.toNat
  | [a, b] =>
    match Hex.digit a, Hex.digit b with
    | some x, some y => some (16 * x.toNat + y.toNat)
    | _, _ => none
  | _ => none

/-- `c.to_ascii_lowercase()` -/
def asciiLower (c : Char) : Char := if 'A' ≤ c ∧ c ≤ 'Z' then Char.ofNat (c.toNat + 32) else c

/-- The address text of a DF17 or DF18 frame given as hex, lower case. -/
def adsbIcao (hex : String) : Option String :=
  if hex.utf8ByteSize ≠ 28 then none
  else
    match (byteSlice hex 0 2).bind hexU8 with
    | none => none
    | some b =>
      if b / 8 ≠ 17 ∧ b / 8 ≠ 18 then none
      else (byteSlice hex 2 8).map fun cs => String.ofList (cs.map asciiLower)

example : adsbIcao "8D3C6444580F0E0C1E9F2B6A5B1C" = some "3c6444" := by decide +kernel

/-! ## A client's line -/

/-- A line to the client about its traffic. -/
inductive ClientLine where
  | startSending (icaos : List String)
  | stopSending (icao : String)
  deriving DecidableEq

def ClientLine.render (text : Text F) : ClientLine → String
  | .startSending icaos => "\x7b\"start_sending\":" ++ text.jsonStrings icaos ++ "\x7d\n"
  | .stopSending icao => "\x7b\"stop_sending\":[\"" ++ icao ++ "\"]\x7d\n"

/-- `tx.try_send(line).is_ok()` -/
abbrev Queue := ClientLine → Bool

/-- A line put to the writer's queue, and whether the queue took it. -/
structure Sent where
  line : ClientLine
  taken : Bool
  deriving DecidableEq

/-- A receiver clock reading in counts: finite, in the integer range of a double. -/
def plausibleCounts (t : F) : Bool :=
  F64.isFinite t && decide (0.0 ≤ t) && decide (t < 9007199254740992.0)

namespace Traffic

/-- The aircraft a line offers: its seen list and the keys of its rate report. -/
def offeredNames (text : Text F) (v : Json F) : List String :=
  ((((v.get "seen").map Json.texts).getD []) ++ (((v.get "rate_report").map Json.keys).getD [])).map
    text.toLowercase

def lostNames (text : Text F) (v : Json F) : List String :=
  (((v.get "lost").map Json.texts).getD []).map text.toLowercase

/-- One name offered; the fresh ones are collected. -/
def offerOne (now : F) (p : Traffic F × List String) (icao : String) :
    Traffic F × List String :=
  let (t, start) := p.1.offered icao now
  (t, if start then p.2 ++ [icao] else p.2)

/-- Every name offered in turn; with the names to start. -/
def offerAll (t : Traffic F) (names : List String) (now : F) : Traffic F × List String :=
  names.foldl (offerOne now) (t, [])

/-- What the line offers is asked for, what it reports lost forgotten. -/
def takeOffers (text : Text F) (q : Queue) (t : Traffic F) (v : Json F) (now : F) :
    Traffic F × List Sent :=
  let (t, fresh) := t.offerAll (offeredNames text v) now
  let sent := if fresh.isEmpty then []
    else [{ line := .startSending fresh, taken := q (.startSending fresh) }]
  ((lostNames text v).foldl lost t, sent)

/-- The readings and the frames of a line's sync pair, when all are there and plausible. -/
def syncPair (v : Json F) : Option (F × F × String × String) :=
  match (v.index "et").asF64, (v.index "ot").asF64, (v.index "em").asStr, (v.index "om").asStr with
  | some et, some ot, some em, some om =>
    if plausibleCounts et && plausibleCounts ot then some (et, ot, em, om) else none
  | _, _, _, _ => none

def mlatFrame (v : Json F) : Option (F × String) :=
  match (v.index "t").asF64, (v.index "m").asStr with
  | some t, some m => if plausibleCounts t then some (t, m) else none
  | _, _ => none

/-- The pair forwarded, or the client told to stop. -/
def forwardSync (rx : RxRef) (q : Option Queue) (t : Traffic F) (now : F)
    (p : F × F × String × String) : Traffic F × List Sent × Option (ShardMsg F) :=
  let (et, ot, em, om) := p
  match adsbIcao em with
  | none => (t, [], some (.sync rx et ot em om now))
  | some icao =>
    let (t, forward) := t.onSync icao now
    if forward then (t, [], some (.sync rx et ot em om now))
    else
      (t, (q.map fun q => { line := .stopSending icao, taken := q (.stopSending icao) }).toList,
        none)

/-- The line's message for the shard. -/
def forward (rx : RxRef) (q : Option Queue) (t : Traffic F) (v : Json F) (now : F) :
    Traffic F × List Sent × Option (ShardMsg F) :=
  match v.get "sync" with
  | some sy =>
    match syncPair sy with
    | none => (t, [], none)
    | some p => t.forwardSync rx q now p
  | none =>
    match v.get "mlat" with
    | some ml => (t, [], (mlatFrame ml).map fun p => .mlat rx p.1 p.2 now)
    | none =>
      if (v.get "clock_reset").isSome || (v.get "clock_jump").isSome then
        (t, [], some (.clockReset rx))
      else (t, [], none)

/-- One line of a client: its traffic after it, what was put to the writer's queue, and the
    message for the shard. -/
def processLineTx (text : Text F) (rx : RxRef) (q : Option Queue) (t : Traffic F)
    (line : List UInt8) (atScaled : F) : Traffic F × List Sent × Option (ShardMsg F) :=
  match text.parseJson line with
  | none => (t, [], none)
  | some v =>
    let (t, sent) := match q with
      | none => (t, [])
      | some q => t.takeOffers text q v atScaled
    let (t, sent', msg) := t.forward rx q v atScaled
    (t, sent ++ sent', msg)

end Traffic

end Mlatd
