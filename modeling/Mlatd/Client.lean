/-
  What a client sends (mb-proto, lib.rs): the handshake and the messages, as JSON values and as
  lines, and what the server does with one message (main.rs, process_line_tx).

  A line is the value as `serde_json` writes it, with a newline. The writer is the parameter
  `toVec`; `Text.Reads` says of one value that it is written on one line and read back from it.
  A number is what `as_f64` reads of it.
-/
import Mlatd.Framing.Reader
import Mlatd.Traffic

namespace Mlatd

variable {F : Type} [F64 F]

/-- Clock types on the wire. -/
inductive ClockType where
  | radarcapeGps
  | beast
  | radarcape12Mhz
  | sbs
  | dump1090
  | unknown
  deriving DecidableEq

def ClockType.text : ClockType → String
  | .radarcapeGps => "radarcape_gps"
  | .beast => "beast"
  | .radarcape12Mhz => "radarcape_12mhz"
  | .sbs => "sbs"
  | .dump1090 => "dump1090"
  | .unknown => "unknown"

/-- Counter frequency, Hz. -/
def ClockType.freqHz : ClockType → F
  | .radarcapeGps => 1e9
  | .beast | .radarcape12Mhz => 12e6
  | .sbs => 20e6
  | .dump1090 | .unknown => 12e6

/-- Compression methods. -/
inductive Compress where
  | none
  | zlib
  | zlib2
  deriving DecidableEq

def Compress.text : Compress → String
  | .none => "none"
  | .zlib => "zlib"
  | .zlib2 => "zlib2"

/-- The handshake line. An optional field that is not set is left out. -/
structure Handshake (F : Type) where
  version : UInt8
  user : String
  uuid : Option String
  compress : List Compress
  lat : F
  lon : F
  /-- Receiver altitude, m. -/
  alt : F
  clockType : ClockType
  returnResults : Option Bool
  returnResultFormat : Option String
  clientVersion : Option String
  selectiveTraffic : Option Bool
  heartbeat : Option Bool
  returnStats : Option Bool

/-- A double as JSON has it: `null` when it is not finite. -/
def Json.ofF64 (x : F) : Json F := if F64.isFinite x then .num x else .null

/-- A field that is left out when it is not set. -/
def Json.optional {α : Type} (key : String) (f : α → Json F) (x : Option α) :
    List (String × Json F) :=
  (x.map fun a => (key, f a)).toList

def Handshake.toJson (h : Handshake F) : Json F :=
  .obj ([("version", .num (F64.ofInt h.version.toNat)), ("user", .str h.user)] ++
    Json.optional "uuid" .str h.uuid ++
    [("compress", .arr (h.compress.map fun c => .str c.text)), ("lat", .ofF64 h.lat),
      ("lon", .ofF64 h.lon), ("alt", .ofF64 h.alt), ("clock_type", .str h.clockType.text)] ++
    Json.optional "return_results" .bool h.returnResults ++
    Json.optional "return_result_format" .str h.returnResultFormat ++
    Json.optional "client_version" .str h.clientVersion ++
    Json.optional "selective_traffic" .bool h.selectiveTraffic ++
    Json.optional "heartbeat" .bool h.heartbeat ++
    Json.optional "return_stats" .bool h.returnStats)

/-- Client to server messages. -/
inductive ClientMsg (F : Type) where
  | sync (et ot : F) (em om : String)
  | mlat (t : F) (m : String)
  | seen (icaos : List String)
  | lost (icaos : List String)
  | inputConnected (s : String)
  | inputDisconnected (s : String)
  | clockReset (s : String)
  | clockJump (s : String)
  | heartbeat (v : Json F)
  | rateReport (rates : List (String × Json F))

namespace ClientMsg

/-- Each message is an object of one key. -/
def toJson : ClientMsg F → Json F
  | .sync et ot em om =>
    .obj [("sync", .obj [("et", .num et), ("ot", .num ot), ("em", .str em), ("om", .str om)])]
  | .mlat t m => .obj [("mlat", .obj [("t", .num t), ("m", .str m)])]
  | .seen icaos => .obj [("seen", .arr (icaos.map .str))]
  | .lost icaos => .obj [("lost", .arr (icaos.map .str))]
  | .inputConnected s => .obj [("input_connected", .str s)]
  | .inputDisconnected s => .obj [("input_disconnected", .str s)]
  | .clockReset s => .obj [("clock_reset", .str s)]
  | .clockJump s => .obj [("clock_jump", .str s)]
  | .heartbeat v => .obj [("heartbeat", v)]
  | .rateReport rates => .obj [("rate_report", .obj rates)]

end ClientMsg

/-- `to_line` of a message's or a handshake's value. -/
def toLine (toVec : Json F → List UInt8) (v : Json F) : List UInt8 := toVec v ++ [newline]

/-- The value is written on one line, and read back from it with and without its newline. -/
structure Text.Reads (text : Text F) (toVec : Json F → List UInt8) (v : Json F) : Prop where
  isLine : IsLine (toVec v)
  bare : text.parseJson (toVec v) = some v
  ended : text.parseJson (toLine toVec v) = some v

/-! ## What the server does with a message -/

namespace ClientMsg

/-- The aircraft a message offers. -/
def offers : ClientMsg F → List String
  | .seen icaos => icaos
  | .rateReport rates => rates.map Prod.fst
  | _ => []

/-- The aircraft a message takes back. -/
def losses : ClientMsg F → List String
  | .lost icaos => icaos
  | _ => []

/-- The message in terms of the shard: a report whose readings are plausible, or a reset. -/
def report (rx : RxRef) (now : F) : ClientMsg F → Option (ShardMsg F)
  | .sync et ot em om =>
    if plausibleCounts et && plausibleCounts ot then some (.sync rx et ot em om now) else none
  | .mlat t m => if plausibleCounts t then some (.mlat rx t m now) else none
  | .clockReset _ | .clockJump _ => some (.clockReset rx)
  | _ => none

/-- The aircraft whose quota a message needs: that of a plausible pair's ADS-B frame. -/
def quota : ClientMsg F → Option String
  | .sync et ot em _ => if plausibleCounts et && plausibleCounts ot then adsbIcao em else none
  | _ => none

/-- The offers of a message taken. -/
def offer (text : Text F) (q : Queue) (t : Traffic F) (now : F) (m : ClientMsg F) :
    Traffic F × List Sent :=
  let p := t.offerAll (m.offers.map text.toLowercase) now
  ((m.losses.map text.toLowercase).foldl Traffic.lost p.1,
    if p.2.isEmpty then []
    else [{ line := .startSending p.2, taken := q (.startSending p.2) }])

/-- What the server does with a message: its offers are taken, and its report goes to the shard
    unless its aircraft is over the cap, which the client is told. -/
def handle (text : Text F) (rx : RxRef) (q : Queue) (t : Traffic F) (now : F) (m : ClientMsg F) :
    Traffic F × List Sent × Option (ShardMsg F) :=
  let p := m.offer text q t now
  match m.quota with
  | none => (p.1, p.2, m.report rx now)
  | some icao =>
    let r := p.1.onSync icao now
    if r.2 then (r.1, p.2, m.report rx now)
    else (r.1, p.2 ++ [{ line := .stopSending icao, taken := q (.stopSending icao) }], none)

omit [F64 F] in
theorem offeredNames_toJson (text : Text F) (m : ClientMsg F) :
    Traffic.offeredNames text m.toJson = m.offers.map text.toLowercase := by
  cases m <;> simp [Traffic.offeredNames, toJson, offers, Json.get, Json.texts, Json.asArray,
    Json.keys, List.filterMap_map, Function.comp_def, Json.asStr]

omit [F64 F] in
theorem lostNames_toJson (text : Text F) (m : ClientMsg F) :
    Traffic.lostNames text m.toJson = m.losses.map text.toLowercase := by
  cases m <;> simp [Traffic.lostNames, toJson, losses, Json.get, Json.texts, Json.asArray,
    List.filterMap_map, Function.comp_def, Json.asStr]

theorem forward_toJson (rx : RxRef) (q : Queue) (t : Traffic F) (now : F) (m : ClientMsg F) :
    t.forward rx (some q) m.toJson now =
      match m.quota with
      | none => (t, [], m.report rx now)
      | some icao =>
        let r := t.onSync icao now
        if r.2 then (r.1, [], m.report rx now)
        else (r.1, [{ line := .stopSending icao, taken := q (.stopSending icao) }], none) := by
  cases m with
  | sync et ot em om =>
    simp only [Traffic.forward, toJson, quota, report, Json.get, Traffic.syncPair, Json.index,
      List.find?, Json.asF64, Json.asStr]
    cases hp : plausibleCounts et && plausibleCounts ot with
    | false => simp [hp]
    | true =>
      cases ha : adsbIcao em with
      | none => simp [hp, Traffic.forwardSync, ha]
      | some icao => simp [hp, Traffic.forwardSync, ha]
  | mlat t' m =>
    simp only [Traffic.forward, toJson, quota, report, Json.get, Traffic.mlatFrame, Json.index,
      List.find?]
    cases hp : plausibleCounts t' <;> simp [Json.asF64, Json.asStr, hp]
  | seen icaos => simp [Traffic.forward, toJson, quota, report, Json.get]
  | lost icaos => simp [Traffic.forward, toJson, quota, report, Json.get]
  | inputConnected s => simp [Traffic.forward, toJson, quota, report, Json.get]
  | inputDisconnected s => simp [Traffic.forward, toJson, quota, report, Json.get]
  | clockReset s => simp [Traffic.forward, toJson, quota, report, Json.get]
  | clockJump s => simp [Traffic.forward, toJson, quota, report, Json.get]
  | heartbeat v => simp [Traffic.forward, toJson, quota, report, Json.get]
  | rateReport rates => simp [Traffic.forward, toJson, quota, report, Json.get]

/-- A line that says the message is handled as the message. -/
theorem processLineTx_eq {text : Text F} {line : List UInt8} {m : ClientMsg F}
    (h : text.parseJson line = some m.toJson) (rx : RxRef) (q : Queue) (t : Traffic F) (now : F) :
    t.processLineTx text rx (some q) line now = m.handle text rx q t now := by
  unfold Traffic.processLineTx handle offer
  rw [h]
  simp only [Traffic.takeOffers, offeredNames_toJson, lostNames_toJson, forward_toJson]
  cases m.quota with
  | none => simp
  | some icao =>
    simp only
    split <;> simp

end ClientMsg

end Mlatd
