/-
  The handshake (main.rs, handle_client to shard_for): one line of JSON read, the compression
  negotiated, the position checked, and what the receiver is registered as.

  The client has 15 s for its line; one that does not send it in time is dropped, and is left out
  here, as are the lines for the log. `versionOf` is `hs["version"].as_i64().unwrap_or(0)`: whether
  a number was spelt as an integer is not kept in `Json`.

  `handshake_round_trip`: what the server makes of a handshake of mb-proto, field by field.
-/
import Mlatd.Client

namespace Mlatd

variable {F : Type} [F64 F]

namespace Json

def asBool : Json F → Option Bool
  | .bool b => some b
  | _ => none

end Json

/-- The longest handshake line. -/
def maxHandshake : ℕ := 64 * 1024

/-- What the server knows of a connection before it reads. -/
structure Peer where
  uid : ℕ
  sourceIp : String
  sourcePort : ℕ
  /-- False under `--no-client-results`. -/
  clientResults : Bool

/-- Why a handshake comes to nothing. -/
inductive Rejected where
  /-- closed before handshake -/
  | closed
  /-- handshake line over 64 KiB -/
  | overlong
  /-- handshake not JSON -/
  | notJson
  | denied (d : Denial)

/-- A connection whose position is good: how it is read, and who it is. -/
structure Accepted (F : Type) where
  negotiated : Compress
  info : ReceiverInfo F
  wantsResults : Bool
  wantsStats : Bool

/-- zlib2 first, then zlib, then none. -/
def negotiate (offered : List String) : Option Compress :=
  [Compress.zlib2, .zlib, .none].find? fun m => offered.any (· == m.text)

/-- Counter frequency of a clock type as it is spelt, Hz. -/
def freqHzOf (clockType : String) : F :=
  if clockType = "radarcape_gps" ∨ clockType = "radarcape" then 1e9
  else if clockType = "sbs" then 20e6
  else 12e6

/-- The receiver that a handshake at a good position registers. -/
def receiverOf (versionOf : Json F → ℤ) (peer : Peer) (hs : Json F) (negotiated : Compress)
    (geo : Geodetic F) : ReceiverInfo F :=
  let clockType := ((hs.index "clock_type").asStr).getD "unknown"
  let user := ((hs.index "user").asStr).getD "anon"
  let gps := "radarcape_gps".toList.isPrefixOf clockType.toList
  { user := user
    uid := peer.uid
    uuid := (hs.index "uuid").asStr
    privacy := ((hs.index "privacy").asBool).getD false
    connectionInfo := user ++ " v" ++ toString (versionOf hs) ++ " " ++ clockType ++ " " ++
      ((hs.index "client_version").asStr).getD "unknown" ++ " tcp " ++ negotiated.text
    sourceIp := peer.sourceIp
    sourcePort := peer.sourcePort
    geo := geo
    ecef := geo.toEcef
    freqHz := freqHzOf clockType
    gps := gps
    jitterS := if gps then 30e-9 else 150e-9 }

/-- The handshake answered: denied, or a receiver to register. -/
def admission (versionOf : Json F → ℤ) (peer : Peer) (hs : Json F) : Except Denial (Accepted F) :=
  match negotiate (hs.index "compress").texts with
  | none => .error .noCompression
  | some negotiated =>
    match (hs.index "lat").asF64, (hs.index "lon").asF64, (hs.index "alt").asF64 with
    | some lat, some lon, some alt =>
      if plausiblePosition lat lon alt then
        .ok
          { negotiated := negotiated
            info := receiverOf versionOf peer hs negotiated ⟨lat, lon, alt⟩
            wantsResults :=
              peer.clientResults && ((hs.index "return_results").asBool).getD false
            wantsStats := ((hs.index "return_stats").asBool).getD false }
      else .error .invalidPosition
    | _, _, _ => .error .missingPosition

/-- The first line of a connection read and answered, and what follows it. -/
def readHandshake (text : Text F) (versionOf : Json F → ℤ) (peer : Peer) (rd : List UInt8) :
    Except Rejected (Accepted F × List UInt8) :=
  let p := readUntil maxHandshake rd
  if p.1 = [] then .error .closed
  else if p.1.getLast? ≠ some newline then .error .overlong
  else
    match text.parseJson p.1 with
    | none => .error .notJson
    | some hs =>
      match admission versionOf peer hs with
      | .error d => .error (.denied d)
      | .ok a => .ok (a, p.2)

/-! ## A handshake of mb-proto -/

omit [F64 F] in
theorem find?_optional {α : Type} (key : String) (f : α → Json F) (x : Option α) :
    (Json.optional key f x).find? (fun kv => kv.1 == key) = x.map fun a => (key, f a) := by
  cases x <;> simp [Json.optional]

omit [F64 F] in
theorem find?_optional_ne {α : Type} {key k : String} (h : key ≠ k) (f : α → Json F)
    (x : Option α) : (Json.optional key f x).find? (fun kv => kv.1 == k) = none := by
  cases x <;> simp [Json.optional, h]

theorem asF64_ofF64 (x : F) : (Json.ofF64 x).asF64 = if F64.isFinite x then some x else none := by
  unfold Json.ofF64
  split <;> rfl

namespace Handshake

/-- The best of the methods the client offers. -/
def best (h : Handshake F) : Option Compress :=
  if Compress.zlib2 ∈ h.compress then some .zlib2
  else if Compress.zlib ∈ h.compress then some .zlib
  else if Compress.none ∈ h.compress then some .none
  else none

/-- What the server makes of the handshake. -/
def outcome (versionOf : Json F → ℤ) (peer : Peer) (h : Handshake F) :
    Except Denial (Accepted F) :=
  match h.best with
  | none => .error .noCompression
  | some c =>
    if F64.isFinite h.lat && F64.isFinite h.lon && F64.isFinite h.alt then
      if plausiblePosition h.lat h.lon h.alt then
        .ok
          { negotiated := c
            info :=
              { user := h.user
                uid := peer.uid
                uuid := h.uuid
                privacy := false
                connectionInfo := h.user ++ " v" ++ toString (versionOf h.toJson) ++ " " ++
                  h.clockType.text ++ " " ++ h.clientVersion.getD "unknown" ++ " tcp " ++ c.text
                sourceIp := peer.sourceIp
                sourcePort := peer.sourcePort
                geo := ⟨h.lat, h.lon, h.alt⟩
                ecef := Geodetic.toEcef ⟨h.lat, h.lon, h.alt⟩
                freqHz := h.clockType.freqHz
                gps := decide (h.clockType = .radarcapeGps)
                jitterS := if h.clockType = .radarcapeGps then 30e-9 else 150e-9 }
            wantsResults := peer.clientResults && h.returnResults.getD false
            wantsStats := h.returnStats.getD false }
      else .error .invalidPosition
    else .error .missingPosition

theorem text_inj {c d : Compress} (h : c.text = d.text) : c = d := by
  cases c <;> cases d <;> first | rfl | (exact absurd h (by decide))

omit [F64 F] in
theorem negotiate_eq (h : Handshake F) :
    negotiate (h.compress.map fun c => c.text) = h.best := by
  have hmem : ∀ c : Compress, (h.compress.map fun c => c.text).any (· == c.text) =
      decide (c ∈ h.compress) := by
    intro c
    rw [Bool.eq_iff_iff, decide_eq_true_iff]
    simp only [List.any_map, List.any_eq_true, Function.comp_apply, beq_iff_eq]
    exact ⟨fun ⟨d, hd, he⟩ => text_inj he ▸ hd, fun hc => ⟨c, hc, rfl⟩⟩
  unfold negotiate best
  simp only [List.find?_cons, hmem]
  by_cases h2 : Compress.zlib2 ∈ h.compress
  · simp [h2]
  · by_cases h1 : Compress.zlib ∈ h.compress
    · simp [h2, h1]
    · by_cases h0 : Compress.none ∈ h.compress <;> simp [h2, h1, h0]

theorem gps_text (c : ClockType) :
    "radarcape_gps".toList.isPrefixOf c.text.toList = decide (c = .radarcapeGps) := by
  cases c <;> decide +kernel

theorem freqHzOf_text (c : ClockType) : freqHzOf (F := F) c.text = c.freqHz := by
  cases c <;> simp [freqHzOf, ClockType.text, ClockType.freqHz]

theorem receiverOf_toJson (versionOf : Json F → ℤ) (peer : Peer) (h : Handshake F) (c : Compress)
    (geo : Geodetic F) :
    receiverOf versionOf peer h.toJson c geo =
      { user := h.user
        uid := peer.uid
        uuid := h.uuid
        privacy := false
        connectionInfo := h.user ++ " v" ++ toString (versionOf h.toJson) ++ " " ++
          h.clockType.text ++ " " ++ h.clientVersion.getD "unknown" ++ " tcp " ++ c.text
        sourceIp := peer.sourceIp
        sourcePort := peer.sourcePort
        geo := geo
        ecef := geo.toEcef
        freqHz := h.clockType.freqHz
        gps := decide (h.clockType = .radarcapeGps)
        jitterS := if h.clockType = .radarcapeGps then 30e-9 else 150e-9 } := by
  have huser : (h.toJson.index "user").asStr = some h.user := by
    simp [Json.index, Json.get, toJson, Json.asStr]
  have hclock : (h.toJson.index "clock_type").asStr = some h.clockType.text := by
    simp [Json.index, Json.get, toJson, find?_optional_ne, Json.asStr]
  have huuid : (h.toJson.index "uuid").asStr = h.uuid := by
    cases hu : h.uuid <;> simp [Json.index, Json.get, toJson, find?_optional, find?_optional_ne, hu,
      Json.asStr]
  have hprivacy : (h.toJson.index "privacy").asBool = none := by
    simp [Json.index, Json.get, toJson, find?_optional_ne, Json.asBool]
  have hversion : (h.toJson.index "client_version").asStr = h.clientVersion := by
    cases hv : h.clientVersion <;> simp [Json.index, Json.get, toJson, find?_optional,
      find?_optional_ne, hv, Json.asStr]
  unfold receiverOf
  simp only [huser, hclock, huuid, hprivacy, hversion, Option.getD_some, Option.getD_none,
    gps_text, freqHzOf_text, decide_eq_true_eq]

theorem admission_toJson (versionOf : Json F → ℤ) (peer : Peer) (h : Handshake F) :
    admission versionOf peer h.toJson = h.outcome versionOf peer := by
  have hcompress : (h.toJson.index "compress").texts = h.compress.map fun c => c.text := by
    simp [Json.index, Json.get, toJson, find?_optional_ne, Json.texts, Json.asArray,
      List.filterMap_map, Function.comp_def, Json.asStr]
  have hlat : (h.toJson.index "lat").asF64 = if F64.isFinite h.lat then some h.lat else none := by
    rw [← asF64_ofF64]
    simp [Json.index, Json.get, toJson, find?_optional_ne]
  have hlon : (h.toJson.index "lon").asF64 = if F64.isFinite h.lon then some h.lon else none := by
    rw [← asF64_ofF64]
    simp [Json.index, Json.get, toJson, find?_optional_ne]
  have halt : (h.toJson.index "alt").asF64 = if F64.isFinite h.alt then some h.alt else none := by
    rw [← asF64_ofF64]
    simp [Json.index, Json.get, toJson, find?_optional_ne]
  have hresults : (h.toJson.index "return_results").asBool = h.returnResults := by
    cases hv : h.returnResults <;> simp [Json.index, Json.get, toJson, find?_optional,
      find?_optional_ne, hv, Json.asBool]
  have hstats : (h.toJson.index "return_stats").asBool = h.returnStats := by
    cases hv : h.returnStats <;> simp [Json.index, Json.get, toJson, find?_optional,
      find?_optional_ne, hv, Json.asBool]
  unfold admission outcome
  rw [hcompress, negotiate_eq, hlat, hlon, halt, hresults, hstats]
  cases h.best with
  | none => rfl
  | some c =>
    cases F64.isFinite h.lat
    · rfl
    · cases F64.isFinite h.lon
      · rfl
      · cases F64.isFinite h.alt
        · rfl
        · simp only [if_true, Bool.and_self, receiverOf_toJson]

end Handshake

theorem readUntil_toLine {limit : ℕ} {line : List UInt8} (h : newline ∉ line)
    (hlen : line.length < limit) (rest : List UInt8) :
    readUntil limit (line ++ [newline] ++ rest) = (line ++ [newline], rest) := by
  have hread := readUntil_line h hlen
  rw [readUntil_append (by rw [hread]; simp), hread, List.nil_append]

/-- **The handshake of mb-proto and the server's reading of it.** A client that offers a method and
    gives a plausible position is registered under the user, the uuid, the clock and the position it
    states, with the best method it offers; any other is denied for the first thing it lacks. -/
theorem handshake_round_trip {text : Text F} {toVec : Json F → List UInt8} {h : Handshake F}
    (hr : text.Reads toVec h.toJson) (hlen : (toVec h.toJson).length < maxHandshake)
    (versionOf : Json F → ℤ) (peer : Peer) (rest : List UInt8) :
    readHandshake text versionOf peer (toLine toVec h.toJson ++ rest) =
      ((h.outcome versionOf peer).mapError .denied).map fun a => (a, rest) := by
  have hended := hr.ended
  unfold toLine at hended ⊢
  unfold readHandshake
  rw [readUntil_toLine hr.isLine.2 hlen]
  simp only
  rw [if_neg (by simp), if_neg (by simp), hended]
  simp only
  rw [Handshake.admission_toJson]
  cases h.outcome versionOf peer <;> rfl

/-- A feeder on a mountain. -/
def summit : Handshake ℚ :=
  { version := 3, user := "mb", uuid := none, compress := [.zlib, .zlib2], lat := 47, lon := -1
    alt := 1200, clockType := .beast, returnResults := some true, returnResultFormat := none
    clientVersion := none, selectiveTraffic := none, heartbeat := none, returnStats := none }

def summitLine : List UInt8 :=
  ("\x7b\"version\":3,\"user\":\"mb\",\"compress\":[\"zlib\",\"zlib2\"],\"lat\":47.0,\"lon\":-1.0," ++
    "\"alt\":1200.0,\"clock_type\":\"beast\",\"return_results\":true\x7d").toUTF8.toList

def summitText : Text ℚ where
  parseJson line :=
    if line = summitLine ∨ line = summitLine ++ [newline] then some summit.toJson else none
  jsonStrings names := "[\"" ++ "\",\"".intercalate names ++ "\"]"
  toLowercase s := String.ofList (s.toList.map asciiLower)

theorem handshake_round_trip_summit :
    readHandshake summitText (fun _ => 3) ⟨7, "", 0, true⟩
        (toLine (fun _ => summitLine) summit.toJson ++ [newline]) =
      ((summit.outcome (fun _ => 3) ⟨7, "", 0, true⟩).mapError .denied).map
        fun a => (a, [newline]) := by
  have hline : IsLine summitLine ∧ summitLine.length < maxHandshake := by
    unfold IsLine
    decide +kernel
  have hreads : summitText.Reads (fun _ => summitLine) summit.toJson :=
    ⟨hline.1, if_pos (Or.inl rfl), if_pos (Or.inr rfl)⟩
  exact handshake_round_trip hreads hline.2 _ _ _

end Mlatd
