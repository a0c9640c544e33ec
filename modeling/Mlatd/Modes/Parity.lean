/-
  What the parity of Mode S frames catches (mb-modes lib.rs, decode.rs).

  The register of `crc24` holds, in its low 24 bits, the remainder of the bytes so far times
  `X ^ 24`; the bits above them are never cleared and never read again (`lowWord_crcByte`). So a
  frame that ends with its own parity has remainder 0, and a burst of at most 24 bits changes it.
-/
import Mathlib.Data.Nat.Bitwise
import Mlatd.Lib.Gf2
import Mlatd.Modes.Decode

namespace Mlatd

open Polynomial

/-- The bits of a byte string in the order they are sent. -/
def dataBits (d : List UInt8) : List Bool := d.flatMap fun b => Gf2.msb 8 b.toNat

/-- The three low bytes of a word, big endian. -/
def bytes24 (p : UInt32) : List UInt8 :=
  [(p >>> 16).toUInt8, (p >>> 8).toUInt8, p.toUInt8]

/-- `X ^ 24` and the terms of `crc24Poly`. -/
noncomputable abbrev crcGenerator : Gf2.Poly := Gf2.generator 24 crc24Poly.toNat

/-- The low 24 bits of the register. -/
noncomputable abbrev lowWord (crc : UInt32) : Gf2.Poly := Gf2.word 24 crc.toNat

/-! ## The register -/

theorem testBit_shiftLeft_one (crc : UInt32) {i : ℕ} (hi : i < 32) :
    (crc <<< 1).toNat.testBit i = (crc.toNat <<< 1).testBit i := by
  have h : (crc <<< 1).toNat = (crc.toNat <<< 1) % 2 ^ 32 := by
    rw [UInt32.toNat_shiftLeft]
    rfl
  rw [h, Nat.testBit_mod_two_pow, decide_eq_true hi, Bool.true_and]

/-- The test of `crcShift` reads the bit that leaves the low 24. -/
theorem carry_iff (crc : UInt32) :
    (crc <<< 1) &&& 0x1000000 ≠ 0 ↔ (crc.toNat <<< 1).testBit 24 = true := by
  have hmask : ((crc <<< 1) &&& 0x1000000).toNat =
      (crc <<< 1).toNat &&& 2 ^ 24 := UInt32.toNat_and _ _
  rw [← testBit_shiftLeft_one crc (by decide), ne_eq, ← UInt32.toNat_inj, hmask,
    Nat.and_two_pow]
  cases (crc <<< 1).toNat.testBit 24 <;> simp

theorem lowWord_crcShift (crc : UInt32) :
    lowWord (crcShift crc) = (X * lowWord crc) %ₘ crcGenerator := by
  have hlow : lowWord (crc <<< 1) = Gf2.word 24 (crc.toNat <<< 1) :=
    congrArg Gf2.ofBits (Gf2.msb_congr fun i hi => testBit_shiftLeft_one crc (by omega))
  rw [← Gf2.word_shift]
  unfold crcShift Gf2.shift
  by_cases hc : (crc <<< 1) &&& 0x1000000 ≠ 0
  · rw [if_pos ((carry_iff crc).1 hc)]
    simp only [if_pos hc]
    rw [lowWord, UInt32.toNat_xor, Gf2.word_xor, Gf2.word_xor, ← hlow]
  · rw [if_neg fun h => hc ((carry_iff crc).2 h)]
    simp only [if_neg hc]
    exact hlow

theorem lowWord_crcShift_iterate (n : ℕ) (crc : UInt32) :
    lowWord (crcShift^[n] crc) = (X ^ n * lowWord crc) %ₘ crcGenerator := by
  induction n with
  | zero => rw [Function.iterate_zero_apply, pow_zero, one_mul, Gf2.word_modByMonic]
  | succ n ih =>
    rw [Function.iterate_succ_apply', lowWord_crcShift, ih, Gf2.mul_modByMonic, ← mul_assoc,
      ← pow_succ']

/-- A byte enters at the top of the low 24 bits. -/
theorem lowWord_byte (byte : UInt8) :
    lowWord (byte.toUInt32 <<< 16) = Gf2.word 8 byte.toNat * X ^ 16 := by
  have hlt := byte.toNat_lt
  have h : (byte.toUInt32 <<< 16).toNat = byte.toNat <<< 16 := by
    rw [UInt32.toNat_shiftLeft, UInt8.toNat_toUInt32]
    have hpos : UInt32.toNat 16 % 32 = 16 := rfl
    rw [hpos, Nat.shiftLeft_eq]
    exact Nat.mod_eq_of_lt (by omega)
  rw [lowWord, h]
  exact Gf2.word_shiftLeft 8 16 byte.toNat

theorem lowWord_crcByte (crc : UInt32) (byte : UInt8) :
    lowWord (crcByte crc byte) =
      (X ^ 8 * lowWord crc + X ^ 24 * Gf2.word 8 byte.toNat) %ₘ crcGenerator := by
  rw [crcByte, lowWord_crcShift_iterate, lowWord, UInt32.toNat_xor, Gf2.word_xor]
  have hbyte := lowWord_byte byte
  rw [lowWord] at hbyte
  rw [hbyte]
  ring_nf

theorem ofBits_dataBits_cons (b : UInt8) (d : List UInt8) :
    Gf2.ofBits (dataBits (b :: d)) =
      Gf2.word 8 b.toNat * X ^ (8 * d.length) + Gf2.ofBits (dataBits d) := by
  have hlen : (dataBits d).length = 8 * d.length := by
    simp [dataBits, List.length_flatMap]
    omega
  have h : dataBits (b :: d) = Gf2.msb 8 b.toNat ++ dataBits d := List.flatMap_cons
  rw [h, Gf2.ofBits_append, hlen]

/-- The loop over the bytes divides: what the register held moves up, the bytes come in below. -/
theorem lowWord_foldl (d : List UInt8) (crc : UInt32) :
    lowWord (d.foldl crcByte crc) =
      (X ^ (8 * d.length) * lowWord crc + Gf2.ofBits (dataBits d) * X ^ 24) %ₘ crcGenerator := by
  induction d generalizing crc with
  | nil => simp [dataBits, Gf2.ofBits, Gf2.word_modByMonic]
  | cons b d ih =>
    rw [List.foldl_cons, ih, lowWord_crcByte, add_modByMonic, Gf2.mul_modByMonic, ← add_modByMonic,
      ofBits_dataBits_cons, List.length_cons]
    ring_nf

/-! ## The parity -/

theorem toNat_crc24 (d : List UInt8) :
    (crc24 d).toNat = (d.foldl crcByte 0).toNat % 2 ^ 24 := by
  rw [crc24, UInt32.toNat_and]
  exact Nat.and_two_pow_sub_one_eq_mod _ 24

theorem crc24_lt (d : List UInt8) : (crc24 d).toNat < 2 ^ 24 := by
  rw [toNat_crc24]
  exact Nat.mod_lt _ (by norm_num)

theorem lowWord_crc24 (d : List UInt8) :
    lowWord (crc24 d) = (Gf2.ofBits (dataBits d) * X ^ 24) %ₘ crcGenerator := by
  have h := lowWord_foldl d 0
  have hzero : lowWord 0 = 0 := Gf2.ofBits_replicate_false 24
  rw [hzero, mul_zero, zero_add] at h
  rw [← h, lowWord, toNat_crc24]
  refine congrArg Gf2.ofBits (Gf2.msb_congr fun i hi => ?_)
  rw [Nat.testBit_mod_two_pow, decide_eq_true hi, Bool.true_and]

theorem crc24_eq_iff (d d' : List UInt8) :
    crc24 d = crc24 d' ↔ lowWord (crc24 d) = lowWord (crc24 d') := by
  constructor
  · intro h
    rw [h]
  · intro h
    exact UInt32.toNat_inj.1 (Gf2.word_injective (crc24_lt d) (crc24_lt d') h)

theorem dataBits_append (d d' : List UInt8) : dataBits (d ++ d') = dataBits d ++ dataBits d' :=
  List.flatMap_append

theorem dataBits_bytes24 (p : UInt32) : dataBits (bytes24 p) = Gf2.msb 24 p.toNat := by
  have hbyte (n : UInt32) : Gf2.msb 8 n.toUInt8.toNat = Gf2.msb 8 n.toNat := by
    refine Gf2.msb_congr fun i hi => ?_
    rw [UInt32.toNat_toUInt8, Nat.testBit_mod_two_pow, decide_eq_true hi, Bool.true_and]
  have h : Gf2.msb 24 p.toNat =
      Gf2.msb 8 (p.toNat >>> 16) ++ (Gf2.msb 8 (p.toNat >>> 8) ++ Gf2.msb 8 p.toNat) := by
    rw [← Gf2.msb_add 8 8, ← Gf2.msb_add 8 16]
  rw [h, bytes24, dataBits, List.flatMap_cons, List.flatMap_cons, List.flatMap_cons,
    List.flatMap_nil, List.append_nil, hbyte, hbyte, hbyte, UInt32.toNat_shiftRight,
    UInt32.toNat_shiftRight]
  rfl

/-- A byte string followed by its own parity has remainder 0. -/
theorem crc24_bytes24 (d : List UInt8) : crc24 (d ++ bytes24 (crc24 d)) = 0 := by
  have hzero : lowWord 0 = 0 := Gf2.ofBits_replicate_false 24
  rw [← UInt32.toNat_inj]
  refine Gf2.word_injective (crc24_lt _) (by norm_num) (?_ : lowWord _ = lowWord 0)
  rw [lowWord_crc24, hzero, dataBits_append, dataBits_bytes24, Gf2.ofBits_append,
    Gf2.length_msb]
  -- The string moved up and its remainder cancel.
  have hcancel : (Gf2.ofBits (dataBits d) * X ^ 24 + lowWord (crc24 d)) %ₘ crcGenerator = 0 := by
    rw [add_modByMonic, ← lowWord_crc24, Gf2.word_modByMonic, CharTwo.add_self_eq_zero]
  rw [mul_comm, ← Gf2.mul_modByMonic, hcancel, mul_zero, zero_modByMonic]

theorem crc24_burst {d d' : List UInt8} (h : Gf2.Burst 24 (dataBits d) (dataBits d')) :
    crc24 d ≠ crc24 d' := by
  rw [ne_eq, crc24_eq_iff, lowWord_crc24, lowWord_crc24]
  exact Gf2.burst_detected (by decide) (by decide) 24 h

theorem crc24_of_parseDf17Airborne {f : List UInt8} {p : Df17Airborne}
    (h : parseDf17Airborne f = some p) : crc24 f = 0 := by
  unfold parseDf17Airborne at h
  split at h
  · cases h
  · next hok => exact not_not.1 (not_or.1 (not_or.1 hok).2).2

/-- **`crc24` is the remainder, and catches bursts.** -/
theorem crc24_spec (d : List UInt8) :
    Gf2.word 32 (crc24 d).toNat =
      (Gf2.ofBits (dataBits d) * X ^ 24) %ₘ (X ^ 24 + Gf2.word 32 crc24Poly.toNat) ∧
    crc24 (d ++ bytes24 (crc24 d)) = 0 ∧
    ∀ d' : List UInt8, Gf2.Burst 24 (dataBits d) (dataBits d') →
      crc24 d ≠ crc24 d' ∧
      ((parseDf17Airborne d).isSome = true → parseDf17Airborne d' = none) := by
  have hpoly : Gf2.word 32 crc24Poly.toNat = lowWord crc24Poly :=
    Gf2.word_of_lt (k := 24) (by decide) 8
  refine ⟨?_, crc24_bytes24 d, fun d' h => ⟨crc24_burst h, fun hd => ?_⟩⟩
  · rw [hpoly, ← Gf2.generator, ← lowWord_crc24]
    exact Gf2.word_of_lt (crc24_lt d) 8
  · obtain ⟨p, hp⟩ := Option.isSome_iff_exists.1 hd
    cases hd' : parseDf17Airborne d' with
    | none => rfl
    | some p' =>
      have h0 := (crc24_of_parseDf17Airborne hp).trans (crc24_of_parseDf17Airborne hd').symm
      exact absurd h0 (crc24_burst h)

end Mlatd
