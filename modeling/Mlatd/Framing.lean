/-
  Client framing (mb-proto, framing.rs): the `zlib` modes of a connection.

  A frame is a two-byte length and what a compressor wrote for some lines, sync-flushed, the
  flush's trailer left out. The compressor and the decompressor live as long as the connection, so
  a frame can only be read after the frames before it. Both directions call the codec in a loop
  until the input is taken, and give it a longer buffer for each further call.

  `flate2` is the parameter `z`. A buffer is its length and what has been written to it. How much
  memory a decoder keeps between frames is left out: no frame depends on it.
-/
import Mlatd.Lib.Streaming

namespace Mlatd

open Streaming

inductive ProtoError where
  | framing (msg : String)
  deriving DecidableEq

/-- Sync-flush trailer, stripped on the wire. -/
def syncTrailer : List UInt8 := [0x00, 0x00, 0xFF, 0xFF]

def endsWithSync (b : List UInt8) : Bool :=
  decide (4 ≤ b.length) && b.drop (b.length - 4) == syncTrailer

/-- `payload.strip_suffix(&SYNC_TRAILER)` -/
def stripSync (b : List UInt8) : Option (List UInt8) :=
  if endsWithSync b then some (b.take (b.length - 4)) else none

/-- Most a single frame may inflate to. -/
def maxFrameOut : ℕ := 4 * 1024 * 1024

/-- The decoder's buffer, and how much it grows at a time. -/
def outStep : ℕ := 64 * 1024

def toBeBytes (n : ℕ) : List UInt8 := [(n / 256).toUInt8, n.toUInt8]

def fromBeBytes (hi lo : UInt8) : ℕ := hi.toNat * 256 + lo.toNat

/-! ## Encoding -/

/-- The loop of `encode_frame`: the lines not taken, the output so far, the buffer's length. None
    when it takes more than `fuel` calls. -/
def encodeLoop (z : Codec) : ℕ → z.Deflate → List UInt8 → List UInt8 → ℕ →
    Option (Except ProtoError (List UInt8 × z.Deflate))
  | 0, _, _, _, _ => none
  | fuel + 1, s, lines, out, len =>
    match z.compress s lines (len - out.length) with
    | .error e => some (.error (.framing ("zlib: " ++ e)))
    | .ok c =>
      let lines := lines.drop c.taken
      let out := out ++ c.out
      if c.status = .streamEnd ∨ lines = [] ∧ endsWithSync out = true then some (.ok (out, c.state))
      else encodeLoop z fuel c.state lines out (len + 4096)

/-- One frame of newline-terminated lines. -/
def encodeFrame (z : Codec) (fuel : ℕ) (s : z.Deflate) (lines : List UInt8) :
    Option (Except ProtoError (List UInt8 × z.Deflate)) :=
  match encodeLoop z fuel s lines [] (lines.length + 1024) with
  | none => none
  | some (.error e) => some (.error e)
  | some (.ok (out, s)) =>
    match stripSync out with
    | none => some (.error (.framing "sync flush trailer missing"))
    | some payload =>
      if 65535 < payload.length then
        some (.error (.framing ("frame too large: " ++ toString payload.length ++
          " bytes (limit 65535); batch fewer lines")))
      else some (.ok (toBeBytes payload.length ++ payload, s))

/-! ## Decoding -/

/-- The loop of `decode_frame`: the input not taken, the output so far, the buffer's length. -/
def decodeLoop (z : Codec) (s : z.Inflate) (rest out : List UInt8) (len : ℕ) :
    Except ProtoError (List UInt8 × z.Inflate) :=
  match z.decompress s rest (len - out.length) with
  | .error e => .error (.framing ("inflate: " ++ e))
  | .ok c =>
    let rest := rest.drop c.taken
    let out := out ++ c.out
    if c.status = .streamEnd ∨ rest = [] then .ok (out, c.state)
    else if maxFrameOut ≤ len then
      .error (.framing ("frame inflates past " ++ toString maxFrameOut ++ " bytes"))
    else decodeLoop z c.state rest out (len + outStep)
termination_by maxFrameOut - len
decreasing_by
  unfold outStep
  omega

/-- The lines of one frame, its length header with it. -/
def decodeFrame (z : Codec) (s : z.Inflate) (frame : List UInt8) :
    Except ProtoError (List UInt8 × z.Inflate) :=
  match frame with
  | hi :: lo :: payload =>
    let want := fromBeBytes hi lo
    if payload.length ≠ want then
      .error (.framing ("length header " ++ toString want ++ " != payload " ++
        toString payload.length))
    else decodeLoop z s (payload ++ syncTrailer) [] outStep
  | _ => .error (.framing "short frame")

/-! ## A connection -/

/-- Chunks that one encoder made into frames, in order. -/
inductive Encoded (z : Codec) : z.Deflate → List (List UInt8) → List (List UInt8) → Prop where
  | nil (s : z.Deflate) : Encoded z s [] []
  | cons {s s' : z.Deflate} {chunk frame : List UInt8} {chunks frames : List (List UInt8)}
      {fuel : ℕ} : encodeFrame z fuel s chunk = some (.ok (frame, s')) →
      Encoded z s' chunks frames → Encoded z s (chunk :: chunks) (frame :: frames)

/-- What one decoder returns for frames, in order. -/
def decodeAll (z : Codec) : z.Inflate → List (List UInt8) → Except ProtoError (List (List UInt8))
  | _, [] => .ok []
  | s, frame :: frames =>
    match decodeFrame z s frame with
    | .error e => .error e
    | .ok (lines, s) => (decodeAll z s frames).map (lines :: ·)

end Mlatd
