/-
  Mode S frame building (mb-modes, frames.rs) and that the parsers of `Modes/Decode` read
  back every field (`frames_round_trip`).

  A builder packs fields into a word, writes the word's bytes and appends their parity. Each step
  is arithmetic: the packed word is the sum of its fields (`meWord_toNat`, `df4Head_toNat`), the
  bytes read back are the word (`toNat_meField`, `toNat_be24`), and a field is a quotient and a
  remainder.
-/
import Mlatd.Modes.Altitude
import Mlatd.Modes.Cpr

namespace Mlatd

variable {F : Type} [F64 F]

/-! ## Builders -/

/-- ME, 56 bits: TC(5) SS(2) SAF(1) ALT12 T(1) F(1) LAT17 LON17. -/
def meWord (tc : UInt8) (alt12 : UInt16) (odd : Bool) (yz xz : ℕ) : UInt64 :=
  (tc.toUInt64 <<< 51) ||| (alt12.toUInt64 <<< 36) ||| ((if odd then 1 else 0 : UInt64) <<< 34) |||
    (UInt64.ofNat yz <<< 17) ||| UInt64.ofNat xz

/-- Format and capability. -/
def headByte (df ca : UInt8) : UInt8 := (df <<< 3) ||| (ca &&& 0x7)

/-- A frame's bytes, their parity appended. -/
def withParity (f : List UInt8) : List UInt8 := f ++ bytes24 (crc24 f)

/-- DF17 extended squitter, airborne position, barometric altitude. -/
def df17AirbornePosition (icao : Icao) (ca tc : UInt8) (altFt : ℤ) (latDeg lonDeg : F)
    (odd : Bool) : Option (List UInt8) :=
  (ac12 altFt).map fun alt12 =>
    let (yz, xz) := encodeAirborne latDeg lonDeg odd
    let me := meWord tc alt12 odd yz xz
    withParity (headByte 17 ca :: (bytes24 icao.val ++
      (List.range 7).map fun i => (me >>> UInt64.ofNat (48 - 8 * i)).toUInt8))

/-- DF11 all-call reply. -/
def df11 (icao : Icao) (ca : UInt8) : List UInt8 :=
  withParity (headByte 11 ca :: bytes24 icao.val)

/-- DF(5) = 4, FS(3), DR(5) = 0, UM(6) = 0, AC(13). -/
def df4Head (fs : UInt8) (ac13 : UInt16) : UInt32 :=
  ((4 : UInt32) <<< 27) ||| ((fs.toUInt32 &&& 0x7) <<< 24) ||| ac13.toUInt32

/-- DF4 altitude reply, the address laid over the parity. -/
def df4 (icao : Icao) (fs : UInt8) (altFt : ℤ) : Option (List UInt8) :=
  (ac13 altFt).map fun ac13 =>
    let head := df4Head fs ac13
    let f := [(head >>> 24).toUInt8, (head >>> 16).toUInt8, (head >>> 8).toUInt8, head.toUInt8]
    f ++ bytes24 (crc24 f ^^^ icao.val)

/-! ## Words and their bytes -/

theorem toUInt8_eq (w : UInt32) : w.toUInt8 = UInt8.ofNat (w.toNat / 256 ^ 0) := by
  rw [pow_zero, Nat.div_one]
  exact UInt8.toNat_inj.1 (by rw [UInt32.toNat_toUInt8, UInt8.toNat_ofNat'])

theorem bytes24_eq (w : UInt32) : bytes24 w = Bits.beBytes 3 w.toNat := by
  have hbyte (k : UInt32) (j : ℕ) (hk : w.toNat >>> (k.toNat % 32) = w.toNat / 256 ^ j) :
      (w >>> k).toUInt8 = UInt8.ofNat (w.toNat / 256 ^ j) := by
    rw [toUInt8_eq, UInt32.toNat_shiftRight, hk, pow_zero, Nat.div_one]
  rw [bytes24, hbyte 16 2 (Nat.shiftRight_eq_div_pow _ 16),
    hbyte 8 1 (Nat.shiftRight_eq_div_pow _ 8), toUInt8_eq]
  rfl

/-- The four bytes of the head of a DF4. -/
theorem headBytes_eq (w : UInt32) :
    [(w >>> 24).toUInt8, (w >>> 16).toUInt8, (w >>> 8).toUInt8, w.toUInt8] =
      Bits.beBytes 4 w.toNat := by
  have hbyte : (w >>> 24).toUInt8 = UInt8.ofNat (w.toNat / 256 ^ 3) := by
    rw [toUInt8_eq, UInt32.toNat_shiftRight, pow_zero, Nat.div_one]
    exact congrArg UInt8.ofNat (Nat.shiftRight_eq_div_pow _ 24)
  rw [hbyte, Bits.beBytes, ← bytes24_eq]
  rfl

theorem meBytes_eq (me : UInt64) :
    ((List.range 7).map fun i => (me >>> UInt64.ofNat (48 - 8 * i)).toUInt8) =
      Bits.beBytes 7 me.toNat := by
  have hbyte (k : UInt64) (j : ℕ) (hk : me.toNat >>> (k.toNat % 64) = me.toNat / 256 ^ j) :
      (me >>> k).toUInt8 = UInt8.ofNat (me.toNat / 256 ^ j) := by
    refine UInt8.toNat_inj.1 ?_
    rw [UInt64.toNat_toUInt8, UInt64.toNat_shiftRight, hk, UInt8.toNat_ofNat']
  have hrange : List.range 7 = [0, 1, 2, 3, 4, 5, 6] := rfl
  rw [hrange, List.map_cons, List.map_cons, List.map_cons, List.map_cons, List.map_cons,
    List.map_cons, List.map_cons, List.map_nil,
    hbyte _ 6 (Nat.shiftRight_eq_div_pow _ 48), hbyte _ 5 (Nat.shiftRight_eq_div_pow _ 40),
    hbyte _ 4 (Nat.shiftRight_eq_div_pow _ 32), hbyte _ 3 (Nat.shiftRight_eq_div_pow _ 24),
    hbyte _ 2 (Nat.shiftRight_eq_div_pow _ 16), hbyte _ 1 (Nat.shiftRight_eq_div_pow _ 8),
    hbyte _ 0 (by simp)]
  rfl

theorem toNat_be24 (f : List UInt8) (i : ℕ) :
    (be24 f i).toNat = Bits.beVal [byteAt f i, byteAt f (i + 1), byteAt f (i + 2)] := by
  have h0 := (byteAt f i).toNat_lt
  have h1 := (byteAt f (i + 1)).toNat_lt
  have h2 := (byteAt f (i + 2)).toNat_lt
  have hhigh : ((byteAt f i).toUInt32 <<< 16).toNat = (byteAt f i).toNat * 65536 := by
    rw [UInt32.toNat_shiftLeft, UInt8.toNat_toUInt32, Nat.shiftLeft_eq]
    exact Nat.mod_eq_of_lt (by simp; omega)
  have hmid : ((byteAt f (i + 1)).toUInt32 <<< 8).toNat = (byteAt f (i + 1)).toNat * 256 := by
    rw [UInt32.toNat_shiftLeft, UInt8.toNat_toUInt32, Nat.shiftLeft_eq]
    exact Nat.mod_eq_of_lt (by simp; omega)
  have hor : (byteAt f i).toNat * 65536 ||| (byteAt f (i + 1)).toNat * 256 =
      (byteAt f i).toNat * 65536 + (byteAt f (i + 1)).toNat * 256 :=
    Bits.or_eq_add (k := 16) (by omega) (by omega)
  rw [be24, UInt32.toNat_or, UInt32.toNat_or, hhigh, hmid, UInt8.toNat_toUInt32, hor,
    Bits.or_eq_add (k := 8) (by omega) (by omega)]
  simp only [Bits.beVal, List.foldl_cons, List.foldl_nil]
  omega

theorem toNat_meField (f : List UInt8) (hf : ((f.drop 4).take 7).length = 7) :
    (meField f).toNat = Bits.beVal ((f.drop 4).take 7) := by
  have hlt := Bits.beVal_lt ((f.drop 4).take 7)
  rw [hf] at hlt
  have h0 : (0 : UInt64).toNat = 0 := rfl
  have h := Bits.foldl_word ((f.drop 4).take 7) 0 (by rw [h0]; omega)
  rwa [h0, zero_mul, zero_add] at h

/-! ## Packed words -/

theorem headByte_shift {df : UInt8} (hdf : df.toNat < 32) (ca : UInt8) :
    headByte df ca >>> 3 = df := by
  have hca : ca.toNat &&& 7 = ca.toNat / 1 % 8 * 1 := Bits.and_mask ca.toNat 3 0
  have hword : (headByte df ca).toNat = df.toNat * 8 + ca.toNat % 8 := by
    simp only [headByte, UInt8.toNat_or, UInt8.toNat_and, UInt8.toNat_shiftLeft,
      UInt8.reduceToNat, hca, Nat.reduceMod, Nat.shiftLeft_eq]
    rw [Bits.or_eq_add (k := 3) (by omega) (by omega)]
    omega
  rw [← UInt8.toNat_inj, UInt8.toNat_shiftRight, hword]
  simp only [UInt8.reduceToNat, Nat.reduceMod, Nat.shiftRight_eq_div_pow]
  omega

theorem toNat_df4Head {ac : UInt16} (hac : ac.toNat < 2 ^ 13) (fs : UInt8) :
    (df4Head fs ac).toNat = 4 * 2 ^ 27 + fs.toNat % 8 * 2 ^ 24 + ac.toNat := by
  have hfs : fs.toNat &&& 7 = fs.toNat / 1 % 8 * 1 := Bits.and_mask fs.toNat 3 0
  have hword : (df4Head fs ac).toNat = 4 * 2 ^ 27 ||| fs.toNat % 8 * 2 ^ 24 ||| ac.toNat := by
    simp only [df4Head, UInt32.toNat_or, UInt32.toNat_and, UInt32.toNat_shiftLeft,
      UInt8.toNat_toUInt32, UInt16.toNat_toUInt32, UInt32.reduceToNat, hfs, Nat.reduceMod,
      Nat.shiftLeft_eq]
    congr 2
    omega
  have hor : 4 * 2 ^ 27 ||| fs.toNat % 8 * 2 ^ 24 = 4 * 2 ^ 27 + fs.toNat % 8 * 2 ^ 24 :=
    Bits.or_eq_add (k := 27) (by omega) (by omega)
  rw [hword, hor, Bits.or_eq_add (k := 24) (by omega) (by omega)]

section
variable {tc : UInt8} {alt12 : UInt16} {yz xz : ℕ}

theorem toNat_meWord (htc : tc.toNat < 32) (halt : alt12.toNat < 2 ^ 12) (odd : Bool)
    (hyz : yz < 2 ^ 17) (hxz : xz < 2 ^ 17) : (meWord tc alt12 odd yz xz).toNat =
      tc.toNat * 2 ^ 51 + alt12.toNat * 2 ^ 36 + odd.toNat * 2 ^ 34 + yz * 2 ^ 17 + xz := by
  have hodd : (if odd then 1 else 0 : UInt64).toNat = odd.toNat := by cases odd <;> rfl
  have hodd1 : odd.toNat ≤ 1 := Bool.toNat_le odd
  have hword : (meWord tc alt12 odd yz xz).toNat = tc.toNat * 2 ^ 51 ||| alt12.toNat * 2 ^ 36 |||
      odd.toNat * 2 ^ 34 ||| yz * 2 ^ 17 ||| xz := by
    simp only [meWord, UInt64.toNat_or, UInt64.toNat_shiftLeft, UInt8.toNat_toUInt64,
      UInt16.toNat_toUInt64, UInt64.toNat_ofNat', UInt64.reduceToNat, hodd, Nat.reduceMod,
      Nat.shiftLeft_eq]
    congr 4 <;> omega
  have h1 : tc.toNat * 2 ^ 51 ||| alt12.toNat * 2 ^ 36 = tc.toNat * 2 ^ 51 + alt12.toNat * 2 ^ 36 :=
    Bits.or_eq_add (k := 51) (by omega) (by omega)
  have h2 : tc.toNat * 2 ^ 51 + alt12.toNat * 2 ^ 36 ||| odd.toNat * 2 ^ 34 =
      tc.toNat * 2 ^ 51 + alt12.toNat * 2 ^ 36 + odd.toNat * 2 ^ 34 :=
    Bits.or_eq_add (k := 36) (by omega) (by omega)
  have h3 : tc.toNat * 2 ^ 51 + alt12.toNat * 2 ^ 36 + odd.toNat * 2 ^ 34 ||| yz * 2 ^ 17 =
      tc.toNat * 2 ^ 51 + alt12.toNat * 2 ^ 36 + odd.toNat * 2 ^ 34 + yz * 2 ^ 17 :=
    Bits.or_eq_add (k := 34) (by omega) (by omega)
  rw [hword, h1, h2, h3, Bits.or_eq_add (k := 17) (by omega) (by omega)]

end

theorem encodeAirborne_lt (latDeg lonDeg : F) (odd : Bool) :
    (encodeAirborne latDeg lonDeg odd).1 < 2 ^ 17 ∧
      (encodeAirborne latDeg lonDeg odd).2 < 2 ^ 17 :=
  ⟨Nat.mod_lt _ (by norm_num), Nat.mod_lt _ (by norm_num)⟩

/-! ## Frames read back -/

/-- Three bytes of a number, read back. -/
theorem be24_of_bytes {f : List UInt8} {i n : ℕ} (hn : n < 2 ^ 24)
    (h : [byteAt f i, byteAt f (i + 1), byteAt f (i + 2)] = Bits.beBytes 3 n) :
    be24 f i = UInt32.ofNat n := by
  have hlt : n < 2 ^ 32 := by omega
  rw [← UInt32.toNat_inj, toNat_be24, h, Bits.beVal_beBytes, UInt32.toNat_ofNat_of_lt' hlt]
  omega

/-- A field of a word: shifted down and masked. -/
theorem toNat_shift_mask {me k m : UInt64} (i w : ℕ) (hk : k.toNat % 64 = i)
    (hm : m.toNat = (2 ^ w - 1) <<< 0) : ((me >>> k) &&& m).toNat = me.toNat / 2 ^ i % 2 ^ w := by
  rw [UInt64.toNat_and, UInt64.toNat_shiftRight, hk, hm, Bits.and_mask, Nat.shiftRight_eq_div_pow,
    pow_zero, Nat.div_one, mul_one]

section
variable {icao : Icao} (hicao : icao.val.toNat < 2 ^ 24)
include hicao

theorem parseDf11_df11 (ca : UInt8) : parseDf11 (df11 icao ca) = some icao := by
  have hhead : byteAt (df11 icao ca) 0 >>> 3 = 11 := headByte_shift (by decide) ca
  have hlen : (df11 icao ca).length = 7 := rfl
  have hbytes : [byteAt (df11 icao ca) 1, byteAt (df11 icao ca) 2, byteAt (df11 icao ca) 3] =
      Bits.beBytes 3 icao.val.toNat := bytes24_eq icao.val
  rw [parseDf11, if_neg (by rw [hlen, hhead]; decide), be24_of_bytes hicao hbytes,
    UInt32.ofNat_toNat]

/-- A DF17 frame of any ME word. -/
theorem parseDf17_frame (ca : UInt8) {me : UInt64} (hme : me.toNat < 2 ^ 56) {f : List UInt8}
    (hf : f = withParity (headByte 17 ca :: (bytes24 icao.val ++ Bits.beBytes 7 me.toNat))) :
    f.length = 14 ∧ byteAt f 0 >>> 3 = 17 ∧ crc24 f = 0 ∧ be24 f 1 = icao.val ∧ meField f = me := by
  have hbody : f = headByte 17 ca :: (Bits.beBytes 3 icao.val.toNat ++ (Bits.beBytes 7 me.toNat ++
      bytes24 (crc24 (headByte 17 ca :: (bytes24 icao.val ++ Bits.beBytes 7 me.toNat))))) := by
    rw [hf, withParity, ← bytes24_eq]
    rfl
  refine ⟨by rw [hf]; rfl, ?_, ?_, ?_, ?_⟩
  · rw [hf]
    exact headByte_shift (by decide) ca
  · rw [hf]
    exact crc24_bytes24 _
  · rw [be24_of_bytes (i := 1) hicao (by rw [hbody]; rfl), UInt32.ofNat_toNat]
  · have hdrop : (f.drop 4).take 7 = Bits.beBytes 7 me.toNat := by
      rw [hbody]
      rfl
    rw [← UInt64.toNat_inj, toNat_meField f (by rw [hdrop, Bits.length_beBytes]), hdrop,
      Bits.beVal_beBytes]
    omega

theorem parseDf17_df17AirbornePosition (ca : UInt8) {tc : UInt8} (htc : 9 ≤ tc ∧ tc ≤ 18)
    {altFt : ℤ} {n : UInt16} (hn : n.toNat < 2048) (halt : altStep altFt = some n)
    (latDeg lonDeg : F) (odd : Bool) :
    ∃ f, df17AirbornePosition icao ca tc altFt latDeg lonDeg odd = some f ∧ f.length = 14 ∧
      byteAt f 0 >>> 3 = 17 ∧ parseDf17Airborne f = some
        { icao := icao
          odd := odd
          cprLat := UInt32.ofNat (encodeAirborne latDeg lonDeg odd).1
          cprLon := UInt32.ofNat (encodeAirborne latDeg lonDeg odd).2
          altFt := some (25 * (n.toNat : ℤ) - 1000) } := by
  obtain ⟨hyz, hxz⟩ := encodeAirborne_lt latDeg lonDeg odd
  obtain ⟨htc1, htc2⟩ := htc
  rw [UInt8.le_iff_toNat_le] at htc1 htc2
  have h9 : (9 : UInt8).toNat = 9 := rfl
  have h18 : (18 : UInt8).toNat = 18 := rfl
  have hac := toNat_ac12Field hn
  have hodd := Bool.toNat_le odd
  have hme := toNat_meWord (show tc.toNat < 32 by omega)
    (show (ac12Field n).toNat < 2 ^ 12 by omega) odd hyz hxz
  obtain ⟨hlen, hhead, hcrc, haddr, hfield⟩ := parseDf17_frame hicao ca
    (show (meWord tc (ac12Field n) odd (encodeAirborne latDeg lonDeg odd).1
      (encodeAirborne latDeg lonDeg odd).2).toNat < 2 ^ 56 by omega) rfl
  refine ⟨_, ?_, hlen, hhead, ?_⟩
  · rw [df17AirbornePosition, ac12, halt, ← meBytes_eq]
    rfl
  generalize hf : withParity _ = f at *
  generalize hw : meWord tc (ac12Field n) odd (encodeAirborne latDeg lonDeg odd).1
    (encodeAirborne latDeg lonDeg odd).2 = me at *
  have htc' : ((me >>> 51) &&& 0x1F).toNat = tc.toNat := by
    rw [toNat_shift_mask 51 5 rfl rfl]
    omega
  have hodd' : ((me >>> 34) &&& 1).toNat = odd.toNat := by
    rw [toNat_shift_mask 34 1 rfl rfl]
    omega
  have hlat' : ((me >>> 17) &&& 0x1FFFF).toNat = (encodeAirborne latDeg lonDeg odd).1 := by
    rw [toNat_shift_mask 17 17 rfl rfl]
    omega
  have hlon' : (me &&& 0x1FFFF).toNat = (encodeAirborne latDeg lonDeg odd).2 := by
    have hm : UInt64.toNat 0x1FFFF = 0x1FFFF := rfl
    have h : me.toNat &&& 0x1FFFF = me.toNat / 1 % 2 ^ 17 * 1 := Bits.and_mask me.toNat 17 0
    rw [UInt64.toNat_and, hm, h]
    omega
  have halt' : ((me >>> 36) &&& 0xFFF).toNat = (ac12Field n).toNat := by
    rw [toNat_shift_mask 36 12 rfl rfl]
    omega
  have hsome : ¬ (f.length ≠ 14 ∨ byteAt f 0 >>> 3 ≠ 17 ∨ crc24 f ≠ 0) := by
    simp [hlen, hhead, hcrc]
  have hkind : ¬ ((me >>> 51) &&& 0x1F < (9 : UInt64) ∨ (18 : UInt64) < (me >>> 51) &&& 0x1F) := by
    have h9' : (9 : UInt64).toNat = 9 := rfl
    have h18' : (18 : UInt64).toNat = 18 := rfl
    rw [UInt64.lt_iff_toNat_lt, UInt64.lt_iff_toNat_lt]
    omega
  have hac12 : ((me >>> 36) &&& 0xFFF).toUInt16 = ac12Field n := by
    rw [← UInt16.toNat_inj, UInt64.toNat_toUInt16, halt']
    omega
  have hlat : ((me >>> 17) &&& 0x1FFFF).toUInt32 =
      UInt32.ofNat (encodeAirborne latDeg lonDeg odd).1 := by
    rw [← UInt32.toNat_inj, UInt64.toNat_toUInt32, hlat', UInt32.toNat_ofNat']
  have hlon : (me &&& 0x1FFFF).toUInt32 =
      UInt32.ofNat (encodeAirborne latDeg lonDeg odd).2 := by
    rw [← UInt32.toNat_inj, UInt64.toNat_toUInt32, hlon', UInt32.toNat_ofNat']
  have hflag : decide ((me >>> 34) &&& 1 = 1) = odd := by
    cases odd with
    | true => exact decide_eq_true (UInt64.toNat_inj.1 hodd')
    | false =>
      refine decide_eq_false fun h => ?_
      rw [h] at hodd'
      cases hodd'
  unfold parseDf17Airborne
  rw [if_neg hsome]
  simp only [hfield]
  rw [if_neg hkind, haddr, hac12, hlat, hlon, hflag, ac12Decode_ac12Field hn]

/-- A DF4 of any head whose format is 4. -/
theorem parseDf4_df4 (fs : UInt8) {altFt : ℤ} {n : UInt16} (hn : n.toNat < 2048)
    (halt : altStep altFt = some n) :
    ∃ f, df4 icao fs altFt = some f ∧ f.length = 7 ∧ byteAt f 0 >>> 3 = 4 ∧
      parseDf4 f = some (icao, some (25 * (n.toNat : ℤ) - 1000)) := by
  have hac : (ac13Field n).toNat < 2 ^ 13 := by
    rw [toNat_ac13Field hn]
    omega
  have hhead := toNat_df4Head hac fs
  generalize hw : df4Head fs (ac13Field n) = head at *
  obtain ⟨f, hf⟩ : ∃ f, f = Bits.beBytes 4 head.toNat ++
    bytes24 (crc24 (Bits.beBytes 4 head.toNat) ^^^ icao.val) := ⟨_, rfl⟩
  have hbody : f = Bits.beBytes 4 head.toNat ++
      Bits.beBytes 3 (crc24 (Bits.beBytes 4 head.toNat) ^^^ icao.val).toNat := by
    rw [hf, bytes24_eq]
  have hbyte : byteAt f 0 = UInt8.ofNat (head.toNat / 256 ^ 3) := by rw [hbody]; rfl
  have hbyte' : (byteAt f 0).toNat = 32 + fs.toNat % 8 := by
    rw [hbyte, UInt8.toNat_ofNat']
    omega
  have hfirst : byteAt f 0 >>> 3 = 4 := by
    rw [← UInt8.toNat_inj, UInt8.toNat_shiftRight, hbyte', Nat.shiftRight_eq_div_pow]
    simp only [UInt8.reduceToNat, Nat.reduceMod]
    omega
  have hlen : f.length = 7 := by rw [hbody]; rfl
  refine ⟨f, ?_, hlen, hfirst, ?_⟩
  · rw [df4, ac13, halt, Option.map_some, Option.map_some, hw, hf]
    simp only [headBytes_eq]
  have hxor : crc24 (Bits.beBytes 4 head.toNat) ^^^ icao.val =
      UInt32.ofNat (crc24 (Bits.beBytes 4 head.toNat) ^^^ icao.val).toNat :=
    (UInt32.ofNat_toNat).symm
  have hlt : (crc24 (Bits.beBytes 4 head.toNat) ^^^ icao.val).toNat < 2 ^ 24 := by
    rw [UInt32.toNat_xor]
    exact Nat.xor_lt_two_pow (crc24_lt _) hicao
  have hap : be24 f 4 = crc24 (Bits.beBytes 4 head.toNat) ^^^ icao.val := by
    rw [be24_of_bytes (i := 4) hlt (by rw [hbody]; rfl), UInt32.ofNat_toNat]
  have htake : f.take 4 = Bits.beBytes 4 head.toNat := by rw [hbody]; rfl
  have haddr : (crc24 (f.take 4) ^^^ be24 f 4) &&& 0xFFFFFF = icao.val := by
    have hmask : icao.val.toNat &&& 0xFFFFFF = icao.val.toNat / 1 % 2 ^ 24 * 1 :=
      Bits.and_mask icao.val.toNat 24 0
    rw [htake, hap, ← UInt32.xor_assoc, UInt32.xor_self, UInt32.zero_xor, ← UInt32.toNat_inj,
      UInt32.toNat_and]
    simp only [UInt32.reduceToNat, hmask]
    omega
  have hac13 :
      ((((byteAt f 0).toUInt32 <<< 24) ||| be24 f 1) &&& 0x1FFF).toUInt16 = ac13Field n := by
    have hbe : (be24 f 1).toNat = head.toNat % 2 ^ 24 := by
      rw [toNat_be24, hbody]
      exact Bits.beVal_beBytes 3 head.toNat
    have hshift : ((byteAt f 0).toUInt32 <<< 24).toNat = (byteAt f 0).toNat * 2 ^ 24 := by
      rw [UInt32.toNat_shiftLeft, UInt8.toNat_toUInt32, Nat.shiftLeft_eq]
      exact Nat.mod_eq_of_lt (by simp; omega)
    have hmask : head.toNat &&& 0x1FFF = head.toNat / 1 % 2 ^ 13 * 1 :=
      Bits.and_mask head.toNat 13 0
    have hword : (((byteAt f 0).toUInt32 <<< 24) ||| be24 f 1).toNat = head.toNat := by
      rw [UInt32.toNat_or, hshift, hbe, Bits.or_eq_add (k := 24) (by omega) (by omega)]
      omega
    rw [← UInt16.toNat_inj, UInt32.toNat_toUInt16, UInt32.toNat_and, hword]
    simp only [UInt32.reduceToNat, hmask]
    omega
  have hsome : ¬ (f.length ≠ 7 ∨ byteAt f 0 >>> 3 ≠ 4) := by simp [hlen, hfirst]
  unfold parseDf4
  rw [if_neg hsome]
  simp only [haddr, hac13]
  rw [ac13Decode_ac13Field hn]

end

theorem dfOf_eq {f : List UInt8} (h : f.length = 7 ∨ f.length = 14) :
    dfOf f = some (byteAt f 0 >>> 3) := if_pos h

theorem parseDf17_none {f : List UInt8} (h : f.length ≠ 14) : parseDf17Airborne f = none :=
  if_pos (Or.inl h)

theorem parseDf11_none {f : List UInt8} (h : f.length ≠ 7 ∨ byteAt f 0 >>> 3 ≠ 11) :
    parseDf11 f = none := if_pos h

theorem parseDf4_none {f : List UInt8} (h : f.length ≠ 7 ∨ byteAt f 0 >>> 3 ≠ 4) :
    parseDf4 f = none := if_pos h

/-- **Builders and parsers agree on every field**, and no parser takes another kind's frame. -/
theorem frames_round_trip (icao : Icao) (hicao : icao.val.toNat < 2 ^ 24) (ca fs tc : UInt8)
    (htc : 9 ≤ tc ∧ tc ≤ 18) (altFt : ℤ) (halt : -1000 ≤ altFt ∧ altFt ≤ 50175) (h25 : 25 ∣ altFt)
    (latDeg lonDeg : F) (odd : Bool) :
    ∃ f17 f4, df17AirbornePosition icao ca tc altFt latDeg lonDeg odd = some f17 ∧
      df4 icao fs altFt = some f4 ∧
      parseDf17Airborne f17 = some
        { icao := icao
          odd := odd
          cprLat := UInt32.ofNat (encodeAirborne latDeg lonDeg odd).1
          cprLon := UInt32.ofNat (encodeAirborne latDeg lonDeg odd).2
          altFt := some altFt } ∧
      parseDf4 f4 = some (icao, some altFt) ∧
      parseDf11 (df11 icao ca) = some icao ∧
      (dfOf f17 = some 17 ∧ dfOf f4 = some 4 ∧ dfOf (df11 icao ca) = some 11) ∧
      (parseDf4 f17 = none ∧ parseDf11 f17 = none) ∧
      (parseDf17Airborne f4 = none ∧ parseDf11 f4 = none) ∧
      parseDf17Airborne (df11 icao ca) = none ∧ parseDf4 (df11 icao ca) = none := by
  obtain ⟨n, hstep, hn, rfl⟩ := altStep_eq halt.1 halt.2 h25
  obtain ⟨f17, h17, hlen17, hdf17, hread17⟩ :=
    parseDf17_df17AirbornePosition hicao ca htc hn hstep latDeg lonDeg odd
  obtain ⟨f4, h4, hlen4, hdf4, hread4⟩ := parseDf4_df4 hicao fs hn hstep
  have hlen11 : (df11 icao ca).length = 7 := rfl
  have hdf11 : byteAt (df11 icao ca) 0 >>> 3 = 11 := headByte_shift (by decide) ca
  refine ⟨f17, f4, h17, h4, hread17, hread4, parseDf11_df11 hicao ca, ⟨?_, ?_, ?_⟩, ⟨?_, ?_⟩,
    ⟨?_, ?_⟩, ?_, ?_⟩
  · rw [dfOf_eq (Or.inr hlen17), hdf17]
  · rw [dfOf_eq (Or.inl hlen4), hdf4]
  · rw [dfOf_eq (Or.inl hlen11), hdf11]
  · exact parseDf4_none (Or.inl (by omega))
  · exact parseDf11_none (Or.inl (by omega))
  · exact parseDf17_none (by omega)
  · exact parseDf11_none (Or.inr (by rw [hdf4]; decide))
  · exact parseDf17_none (by omega)
  · exact parseDf4_none (Or.inr (by rw [hdf11]; decide))

/-- The address and the altitude of an altitude reply. -/
theorem frames_round_trip_reply :
    ∃ f, df4 ⟨0x3944F1⟩ 0 21000 = some f ∧ parseDf4 f = some (⟨0x3944F1⟩, some 21000) := by
  obtain ⟨-, f, -, h, -, hread, -⟩ := frames_round_trip ⟨0x3944F1⟩ (by decide) 5 0 11
    ⟨by decide, by decide⟩ 21000 ⟨by decide, by decide⟩ (by decide) (47.2 : ℚ) (-1.5) true
  exact ⟨f, h, hread⟩

end Mlatd
