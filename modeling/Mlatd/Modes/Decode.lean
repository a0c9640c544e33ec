/-
  Mode S frame decoding (crate mb-modes, lib.rs, alt.rs, decode.rs): the parity, the altitude
  fields and the three frames the server reads (DF17 airborne position, DF11, DF4).
-/
import Mlatd.Core

namespace Mlatd

/-! ## Parity -/

/-- Mode S CRC-24 generator polynomial. -/
def crc24Poly : UInt32 := 0xFFF409

/-- One shift of the register. Bits above 23 are not cleared here. -/
def crcShift (crc : UInt32) : UInt32 :=
  let crc := crc <<< 1
  if crc &&& 0x1000000 ≠ 0 then crc ^^^ crc24Poly else crc

def crcByte (crc : UInt32) (byte : UInt8) : UInt32 :=
  crcShift^[8] (crc ^^^ (byte.toUInt32 <<< 16))

/-- CRC-24 over `data`, MSB first. -/
def crc24 (data : List UInt8) : UInt32 := data.foldl crcByte 0 &&& 0xFFFFFF

/-! ## Altitude fields -/

/-- AC12 of a DF17 airborne position, 25 ft steps only. -/
def ac12Decode (field : UInt16) : Option ℤ :=
  if field &&& 0x010 = 0 then none
  else
    let n := ((field &&& 0xFE0) >>> 1) ||| (field &&& 0x00F)
    some (25 * (n.toNat : ℤ) - 1000)

/-- AC13 of a DF4 reply, metric and Gillham fields refused. -/
def ac13Decode (field : UInt16) : Option ℤ :=
  if field &&& 0x040 ≠ 0 ∨ field &&& 0x010 = 0 then none
  else
    let n := ((field &&& 0x1F80) >>> 2) ||| ((field &&& 0x020) >>> 1) ||| (field &&& 0x00F)
    some (25 * (n.toNat : ℤ) - 1000)

/-! ## Frames -/

/-- A decoded DF17 airborne position message. -/
structure Df17Airborne where
  icao : Icao
  odd : Bool
  cprLat : UInt32
  cprLon : UInt32
  altFt : Option ℤ
  deriving DecidableEq

/-- Byte `i` of a frame. -/
def byteAt (f : List UInt8) (i : ℕ) : UInt8 := f.getD i 0

/-- Three bytes from `i` on, big endian. -/
def be24 (f : List UInt8) (i : ℕ) : UInt32 :=
  ((byteAt f i).toUInt32 <<< 16) ||| ((byteAt f (i + 1)).toUInt32 <<< 8) |||
    (byteAt f (i + 2)).toUInt32

/-- `u64::from_be_bytes` of a zero byte and bytes 4 to 10. -/
def meField (f : List UInt8) : UInt64 :=
  ((f.drop 4).take 7).foldl (fun me b => (me <<< 8) ||| b.toUInt64) 0

/-- A 14-byte DF17 airborne position frame (type code 9 to 18), parity verified. -/
def parseDf17Airborne (f : List UInt8) : Option Df17Airborne :=
  if f.length ≠ 14 ∨ byteAt f 0 >>> 3 ≠ 17 ∨ crc24 f ≠ 0 then none
  else
    let me := meField f
    let tc := (me >>> 51) &&& 0x1F
    if tc < 9 ∨ 18 < tc then none
    else some
      { icao := ⟨be24 f 1⟩
        odd := (me >>> 34) &&& 1 = 1
        cprLat := ((me >>> 17) &&& 0x1FFFF).toUInt32
        cprLon := (me &&& 0x1FFFF).toUInt32
        altFt := ac12Decode ((me >>> 36) &&& 0xFFF).toUInt16 }

/-- A 7-byte DF11: the address. -/
def parseDf11 (f : List UInt8) : Option Icao :=
  if f.length ≠ 7 ∨ byteAt f 0 >>> 3 ≠ 11 then none else some ⟨be24 f 1⟩

/-- A 7-byte DF4 altitude reply: address out of the parity, altitude from AC13. -/
def parseDf4 (f : List UInt8) : Option (Icao × Option ℤ) :=
  if f.length ≠ 7 ∨ byteAt f 0 >>> 3 ≠ 4 then none
  else
    let icao : Icao := ⟨(crc24 (f.take 4) ^^^ be24 f 4) &&& 0xFFFFFF⟩
    let head := ((byteAt f 0).toUInt32 <<< 24) ||| be24 f 1
    some (icao, ac13Decode (head &&& 0x1FFF).toUInt16)

/-- Downlink format of a raw frame, if its length is plausible. -/
def dfOf (f : List UInt8) : Option UInt8 :=
  if f.length = 7 ∨ f.length = 14 then some (byteAt f 0 >>> 3) else none

end Mlatd
