/-
  Altitude fields (mb-modes, alt.rs): the 25 ft step of an altitude in the layouts of AC12 and AC13.

  Each decoder reads back the step its encoder wrote (`ac12Decode_ac12Field`,
  `ac13Decode_ac13Field`). The step is cut off toward zero where the layout's steps go down from
  -1000 ft: `altitude_floors_iff` says which altitudes are floored to theirs.
-/
import Mlatd.Lib.Bits
import Mlatd.Modes.Parity

namespace Mlatd

/-! ## Altitude fields -/

/-- The 25 ft step of an altitude, when it can be encoded. -/
def altStep (altFt : ℤ) : Option UInt16 :=
  let n := (altFt + 1000).tdiv 25
  if 0 ≤ n ∧ n ≤ 2047 then some (UInt16.ofNat n.toNat) else none

/-- N[10:4], Q = 1, N[3:0]. -/
def ac12Field (n : UInt16) : UInt16 := ((n &&& 0x7F0) <<< 1) ||| 0x010 ||| (n &&& 0x00F)

/-- AC12 of a DF17 airborne position. -/
def ac12 (altFt : ℤ) : Option UInt16 := (altStep altFt).map ac12Field

/-- N[10:5], M = 0, N[4], Q = 1, N[3:0]. -/
def ac13Field (n : UInt16) : UInt16 :=
  ((n &&& 0x7E0) <<< 2) ||| ((n &&& 0x010) <<< 1) ||| 0x010 ||| (n &&& 0x00F)

/-- AC13 of a DF4 reply. -/
def ac13 (altFt : ℤ) : Option UInt16 := (altStep altFt).map ac13Field

/-! ## The step of an altitude -/

/-- The quotient cut off toward zero is the floor above zero and the ceiling below. -/
theorem tdiv_cases (a : ℤ) :
    0 ≤ a ∧ a.tdiv 25 = a / 25 ∨ a < 0 ∧ a.tdiv 25 = -(-a / 25) := by
  rcases le_or_gt 0 a with h | h
  · exact Or.inl ⟨h, Int.tdiv_eq_ediv_of_nonneg h⟩
  · refine Or.inr ⟨h, ?_⟩
    rw [← Int.tdiv_eq_ediv_of_nonneg (by omega : 0 ≤ -a), Int.neg_tdiv, neg_neg]

/-- The step is the quotient, cut off toward zero. -/
theorem altStep_cases (altFt : ℤ) :
    (∃ n : UInt16, altStep altFt = some n ∧ n.toNat < 2048 ∧
      (n.toNat : ℤ) = (altFt + 1000).tdiv 25) ∨
    altStep altFt = none ∧ ¬ (0 ≤ (altFt + 1000).tdiv 25 ∧ (altFt + 1000).tdiv 25 ≤ 2047) := by
  by_cases h : 0 ≤ (altFt + 1000).tdiv 25 ∧ (altFt + 1000).tdiv 25 ≤ 2047
  · refine Or.inl ⟨UInt16.ofNat ((altFt + 1000).tdiv 25).toNat, if_pos h, ?_⟩
    have hlt : ((altFt + 1000).tdiv 25).toNat < 65536 := by omega
    have hstep : (UInt16.ofNat ((altFt + 1000).tdiv 25).toNat).toNat =
        ((altFt + 1000).tdiv 25).toNat := UInt16.toNat_ofNat_of_lt' hlt
    omega
  · exact Or.inr ⟨if_neg h, h⟩

/-- An altitude on a 25 ft step is its step's. -/
theorem altStep_eq {altFt : ℤ} (hlo : -1000 ≤ altFt) (hhi : altFt ≤ 50175) (h25 : 25 ∣ altFt) :
    ∃ n : UInt16, altStep altFt = some n ∧ n.toNat < 2048 ∧ 25 * (n.toNat : ℤ) - 1000 = altFt := by
  have hquot := tdiv_cases (altFt + 1000)
  rcases altStep_cases altFt with ⟨n, hsome, hn, heq⟩ | ⟨-, hout⟩
  · exact ⟨n, hsome, hn, by omega⟩
  · omega

section
variable {n : UInt16} (hn : n.toNat < 2048)
include hn

theorem toNat_ac12Field : (ac12Field n).toNat = n.toNat / 16 * 32 + 16 + n.toNat % 16 := by
  have hhigh : n.toNat &&& 0x7F0 = n.toNat / 16 % 128 * 16 := Bits.and_mask n.toNat 7 4
  have hlow : n.toNat &&& 0xF = n.toNat / 1 % 16 * 1 := Bits.and_mask n.toNat 4 0
  have hword : (ac12Field n).toNat = n.toNat / 16 * 32 ||| 16 ||| n.toNat % 16 := by
    simp only [ac12Field, UInt16.toNat_or, UInt16.toNat_and, UInt16.toNat_shiftLeft,
      UInt16.reduceToNat, hhigh, hlow, Nat.reduceMod, Nat.shiftLeft_eq]
    congr 2 <;> omega
  have hq : n.toNat / 16 * 32 ||| 16 = n.toNat / 16 * 32 + 16 :=
    Bits.or_eq_add (k := 5) (by omega) (by omega)
  rw [hword, hq, Bits.or_eq_add (k := 4) (by omega) (by omega)]

theorem toNat_ac13Field : (ac13Field n).toNat =
    n.toNat / 32 * 128 + n.toNat / 16 % 2 * 32 + 16 + n.toNat % 16 := by
  have hhigh : n.toNat &&& 0x7E0 = n.toNat / 32 % 64 * 32 := Bits.and_mask n.toNat 6 5
  have hmid : n.toNat &&& 0x010 = n.toNat / 16 % 2 * 16 := Bits.and_mask n.toNat 1 4
  have hlow : n.toNat &&& 0xF = n.toNat / 1 % 16 * 1 := Bits.and_mask n.toNat 4 0
  have hword : (ac13Field n).toNat =
      n.toNat / 32 * 128 ||| n.toNat / 16 % 2 * 32 ||| 16 ||| n.toNat % 16 := by
    simp only [ac13Field, UInt16.toNat_or, UInt16.toNat_and, UInt16.toNat_shiftLeft,
      UInt16.reduceToNat, hhigh, hmid, hlow, Nat.reduceMod, Nat.shiftLeft_eq]
    congr 3 <;> omega
  have hm : n.toNat / 32 * 128 ||| n.toNat / 16 % 2 * 32 =
      n.toNat / 32 * 128 + n.toNat / 16 % 2 * 32 := Bits.or_eq_add (k := 7) (by omega) (by omega)
  have hq : n.toNat / 32 * 128 + n.toNat / 16 % 2 * 32 ||| 16 =
      n.toNat / 32 * 128 + n.toNat / 16 % 2 * 32 + 16 :=
    Bits.or_eq_add (k := 5) (by omega) (by omega)
  rw [hword, hm, hq, Bits.or_eq_add (k := 4) (by omega) (by omega)]

theorem ac12Decode_ac12Field : ac12Decode (ac12Field n) = some (25 * (n.toNat : ℤ) - 1000) := by
  have hfield := toNat_ac12Field hn
  have hq : (ac12Field n &&& 0x010).toNat = (ac12Field n).toNat / 16 % 2 * 16 :=
    Bits.and_mask (ac12Field n).toNat 1 4
  have hhigh : (ac12Field n).toNat &&& 0xFE0 = (ac12Field n).toNat / 32 % 128 * 32 :=
    Bits.and_mask (ac12Field n).toNat 7 5
  have hlow : (ac12Field n).toNat &&& 0xF = (ac12Field n).toNat / 1 % 16 * 1 :=
    Bits.and_mask (ac12Field n).toNat 4 0
  have hstep : (((ac12Field n &&& 0xFE0) >>> 1) ||| (ac12Field n &&& 0x00F)).toNat = n.toNat := by
    simp only [UInt16.toNat_or, UInt16.toNat_and, UInt16.toNat_shiftRight, UInt16.reduceToNat,
      hhigh, hlow, Nat.reduceMod, Nat.shiftRight_eq_div_pow]
    rw [Bits.or_eq_add (k := 4) (by omega) (by omega)]
    omega
  have hset : ac12Field n &&& 0x010 ≠ 0 := by
    intro h
    rw [h] at hq
    have h0 : (0 : UInt16).toNat = 0 := rfl
    omega
  rw [ac12Decode, if_neg hset]
  simp only [hstep]

/-- The M bit is clear and the Q bit is set. -/
theorem ac13Field_flags : ¬ (ac13Field n &&& 0x040 ≠ 0 ∨ ac13Field n &&& 0x010 = 0) := by
  have hfield := toNat_ac13Field hn
  have hm : (ac13Field n &&& 0x040).toNat = (ac13Field n).toNat / 64 % 2 * 64 :=
    Bits.and_mask (ac13Field n).toNat 1 6
  have hq : (ac13Field n &&& 0x010).toNat = (ac13Field n).toNat / 16 % 2 * 16 :=
    Bits.and_mask (ac13Field n).toNat 1 4
  have hzero : (0 : UInt16).toNat = 0 := rfl
  rw [hfield] at hm hq
  rintro (h | h)
  · refine h (UInt16.toNat_inj.1 ?_)
    rw [hm, hzero]
    omega
  · rw [h, hzero] at hq
    omega

theorem ac13Decode_ac13Field : ac13Decode (ac13Field n) = some (25 * (n.toNat : ℤ) - 1000) := by
  have hfield := toNat_ac13Field hn
  have hhigh : (ac13Field n).toNat &&& 0x1F80 = (ac13Field n).toNat / 128 % 64 * 128 :=
    Bits.and_mask (ac13Field n).toNat 6 7
  have hmid : (ac13Field n).toNat &&& 0x020 = (ac13Field n).toNat / 32 % 2 * 32 :=
    Bits.and_mask (ac13Field n).toNat 1 5
  have hlow : (ac13Field n).toNat &&& 0xF = (ac13Field n).toNat / 1 % 16 * 1 :=
    Bits.and_mask (ac13Field n).toNat 4 0
  have hstep : (((ac13Field n &&& 0x1F80) >>> 2) ||| ((ac13Field n &&& 0x020) >>> 1) |||
      (ac13Field n &&& 0x00F)).toNat = n.toNat := by
    simp only [UInt16.toNat_or, UInt16.toNat_and, UInt16.toNat_shiftRight, UInt16.reduceToNat,
      hhigh, hmid, hlow, Nat.reduceMod, Nat.shiftRight_eq_div_pow]
    clear hhigh hmid hlow
    rw [Bits.or_eq_add (a := (ac13Field n).toNat / 128 % 64 * 128 / 2 ^ 2) (k := 5) (by omega)
      (by omega), Bits.or_eq_add (k := 4) (by omega) (by omega)]
    omega
  rw [ac13Decode, if_neg (ac13Field_flags hn)]
  simp only [hstep]

end

/-! ## Which altitudes are floored -/

/-- An altitude has a field exactly when its floor to 25 ft has a step, and the field is that
    floor's, in either layout. -/
structure FloorsAltitude (altFt : ℤ) : Prop where
  some12 : (ac12 altFt).isSome = true ↔ 0 ≤ (altFt + 1000) / 25 ∧ (altFt + 1000) / 25 ≤ 2047
  some13 : (ac13 altFt).isSome = true ↔ 0 ≤ (altFt + 1000) / 25 ∧ (altFt + 1000) / 25 ≤ 2047
  decode12 : ∀ f, ac12 altFt = some f → ac12Decode f = some (25 * ((altFt + 1000) / 25) - 1000)
  decode13 : ∀ f, ac13 altFt = some f → ac13Decode f = some (25 * ((altFt + 1000) / 25) - 1000)
  le : 25 * ((altFt + 1000) / 25) - 1000 ≤ altFt
  near : altFt - (25 * ((altFt + 1000) / 25) - 1000) ≤ 24
  agree : (ac12 altFt).bind ac12Decode = (ac13 altFt).bind ac13Decode
  encode12 : ∀ f alt, ac12 altFt = some f → ac12Decode f = some alt → ac12 alt = some f
  encode13 : ∀ f alt, ac13 altFt = some f → ac13Decode f = some alt → ac13 alt = some f

/-- The altitude of a step has that step. -/
theorem altStep_of_step {n : UInt16} (hn : n.toNat < 2048) :
    altStep (25 * (n.toNat : ℤ) - 1000) = some n := by
  have hlo : -1000 ≤ 25 * (n.toNat : ℤ) - 1000 := by omega
  obtain ⟨m, hsome, -, heq⟩ := altStep_eq hlo (by omega) (by omega)
  rw [hsome, ← UInt16.toNat_inj.1 (show m.toNat = n.toNat by omega)]

/-- **Altitudes are floored to 25 ft**, but for those less than a step below -1000 ft. -/
theorem altitude_floors_iff (altFt : ℤ) :
    FloorsAltitude altFt ↔ altFt ≤ -1025 ∨ -1000 ≤ altFt := by
  have hnear : 25 * ((altFt + 1000) / 25) - 1000 ≤ altFt ∧
      altFt - (25 * ((altFt + 1000) / 25) - 1000) ≤ 24 := by omega
  have hquot := tdiv_cases (altFt + 1000)
  rcases altStep_cases altFt with ⟨n, hsome, hn, heq⟩ | ⟨hnone, hout⟩
  · have h12 : ac12 altFt = some (ac12Field n) := by rw [ac12, hsome, Option.map_some]
    have h13 : ac13 altFt = some (ac13Field n) := by rw [ac13, hsome, Option.map_some]
    have hdec12 := ac12Decode_ac12Field hn
    have hdec13 := ac13Decode_ac13Field hn
    constructor
    · intro h
      have hk := (h.some12).1 (by rw [h12]; rfl)
      omega
    · intro h
      have hk : (altFt + 1000) / 25 = n.toNat := by
        omega
      have hrange : 0 ≤ (altFt + 1000) / 25 ∧ (altFt + 1000) / 25 ≤ 2047 := by omega
      refine ⟨?_, ?_, ?_, ?_, hnear.1, hnear.2, ?_, ?_, ?_⟩
      · rw [h12]
        exact iff_of_true rfl hrange
      · rw [h13]
        exact iff_of_true rfl hrange
      · intro f hf
        rw [h12] at hf
        rw [← Option.some.inj hf, hdec12, hk]
      · intro f hf
        rw [h13] at hf
        rw [← Option.some.inj hf, hdec13, hk]
      · rw [h12, h13, Option.bind_some, Option.bind_some, hdec12, hdec13]
      · intro f alt hf halt
        rw [h12] at hf
        obtain rfl := Option.some.inj hf
        rw [hdec12] at halt
        rw [← Option.some.inj halt, ac12, altStep_of_step hn, Option.map_some]
      · intro f alt hf halt
        rw [h13] at hf
        obtain rfl := Option.some.inj hf
        rw [hdec13] at halt
        rw [← Option.some.inj halt, ac13, altStep_of_step hn, Option.map_some]
  · have h12 : ac12 altFt = none := by rw [ac12, hnone, Option.map_none]
    have h13 : ac13 altFt = none := by rw [ac13, hnone, Option.map_none]
    have hrange : ¬ (0 ≤ (altFt + 1000) / 25 ∧ (altFt + 1000) / 25 ≤ 2047) := by omega
    refine iff_of_true ⟨?_, ?_, ?_, ?_, hnear.1, hnear.2, ?_, ?_, ?_⟩ (by omega)
    · rw [h12]
      exact iff_of_false (by decide) hrange
    · rw [h13]
      exact iff_of_false (by decide) hrange
    · intro f hf
      rw [h12] at hf
      cases hf
    · intro f hf
      rw [h13] at hf
      cases hf
    · rw [h12, h13, Option.bind_none, Option.bind_none]
    · intro f alt hf
      rw [h12] at hf
      cases hf
    · intro f alt hf
      rw [h13] at hf
      cases hf

/-- The foot below the lowest step has the lowest step's field. -/
theorem foot_below_encoded : ¬ FloorsAltitude (-1001) := by
  intro h
  exact absurd (h.some12.1 (by decide)) (by decide)

end Mlatd
