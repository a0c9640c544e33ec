/-
  Bit fields and big-endian bytes as arithmetic.

  A mask is a quotient and a remainder (`and_mask`), disjoint fields or-ed together are their sum
  (`or_eq_add`), and the bytes of a number read back are the number (`beVal_beBytes`), so that a
  fact about packed fields is one about division with remainder.
-/
import Mathlib.Data.Nat.Bitwise
import Mathlib.Tactic.Linarith
import Mathlib.Tactic.Ring

namespace Bits

/-- The `w` bits of `n` from bit `i` on, left where they are. -/
theorem and_mask (n w i : ℕ) : n &&& ((2 ^ w - 1) <<< i) = (n / 2 ^ i % 2 ^ w) * 2 ^ i := by
  rw [← Nat.shiftLeft_eq, ← Nat.shiftRight_eq_div_pow]
  apply Nat.eq_of_testBit_eq
  intro j
  rw [Nat.testBit_and, Nat.testBit_shiftLeft, Nat.testBit_shiftLeft, Nat.testBit_mod_two_pow,
    Nat.testBit_two_pow_sub_one, Nat.testBit_shiftRight]
  by_cases hj : i ≤ j
  · rw [Nat.add_sub_cancel' hj]
    cases n.testBit j <;> simp [hj]
  · simp [hj]

/-- Fields that do not overlap add up. -/
theorem or_eq_add {a b k : ℕ} (ha : 2 ^ k ∣ a) (hb : b < 2 ^ k) : a ||| b = a + b := by
  obtain ⟨c, rfl⟩ := ha
  rw [mul_comm, ← Nat.shiftLeft_eq, Nat.shiftLeft_add_eq_or_of_lt hb]

/-! ## Big-endian bytes -/

/-- The number a list of bytes stands for. -/
def beVal (bs : List UInt8) : ℕ := bs.foldl (fun acc b => acc * 256 + b.toNat) 0

/-- The lowest `k` bytes of a number. -/
def beBytes : ℕ → ℕ → List UInt8
  | 0, _ => []
  | k + 1, n => UInt8.ofNat (n / 256 ^ k) :: beBytes k n

theorem foldl_beVal (bs : List UInt8) (acc : ℕ) :
    bs.foldl (fun acc b => acc * 256 + b.toNat) acc = acc * 256 ^ bs.length + beVal bs := by
  induction bs generalizing acc with
  | nil => simp [beVal]
  | cons b bs ih =>
    rw [beVal, List.foldl_cons, List.foldl_cons, ih, ih (0 * 256 + b.toNat), List.length_cons]
    ring

theorem beVal_cons (b : UInt8) (bs : List UInt8) :
    beVal (b :: bs) = b.toNat * 256 ^ bs.length + beVal bs := by
  rw [beVal, List.foldl_cons, foldl_beVal]
  ring

theorem beVal_lt (bs : List UInt8) : beVal bs < 256 ^ bs.length := by
  induction bs with
  | nil => simp [beVal]
  | cons b bs ih =>
    have hb : (b.toNat + 1) * 256 ^ bs.length ≤ 256 * 256 ^ bs.length :=
      Nat.mul_le_mul_right _ b.toNat_lt
    rw [beVal_cons, List.length_cons, pow_succ']
    linarith

@[simp] theorem length_beBytes (k n : ℕ) : (beBytes k n).length = k := by
  induction k with
  | zero => rfl
  | succ k ih => rw [beBytes, List.length_cons, ih]

/-- Bytes read back. -/
theorem beVal_beBytes (k n : ℕ) : beVal (beBytes k n) = n % 256 ^ k := by
  induction k with
  | zero => simp [beBytes, beVal, Nat.mod_one]
  | succ k ih =>
    have hbyte : (UInt8.ofNat (n / 256 ^ k)).toNat = n / 256 ^ k % 256 := UInt8.toNat_ofNat'
    rw [beBytes, beVal_cons, ih, length_beBytes, hbyte, pow_succ, Nat.mod_mul]
    ring

/-- Shifting a word up and or-ing a byte in appends the byte, while the word has room. -/
theorem foldl_word (bs : List UInt8) (acc : UInt64)
    (h : acc.toNat * 256 ^ bs.length + beVal bs < 2 ^ 64) :
    (bs.foldl (fun (w : UInt64) b => (w <<< 8) ||| b.toUInt64) acc).toNat =
      acc.toNat * 256 ^ bs.length + beVal bs := by
  induction bs generalizing acc with
  | nil => simp [beVal]
  | cons b bs ih =>
    have hb := b.toNat_lt
    rw [beVal_cons, List.length_cons] at h ⊢
    have hone : 1 ≤ 256 ^ bs.length := Nat.one_le_pow _ _ (by decide)
    have hroom : acc.toNat * 256 < 2 ^ 64 := by
      have h1 : acc.toNat * 256 * 1 ≤ acc.toNat * 256 * 256 ^ bs.length :=
        Nat.mul_le_mul_left _ hone
      rw [pow_succ', ← mul_assoc] at h
      omega
    have hstep : ((acc <<< 8) ||| b.toUInt64).toNat = acc.toNat * 256 + b.toNat := by
      have hshift : (acc <<< 8).toNat = acc.toNat * 256 := by
        rw [UInt64.toNat_shiftLeft, Nat.shiftLeft_eq]
        exact Nat.mod_eq_of_lt hroom
      rw [UInt64.toNat_or, hshift, UInt8.toNat_toUInt64]
      exact or_eq_add (k := 8) (Dvd.intro_left _ rfl) hb
    have hrest : (acc.toNat * 256 + b.toNat) * 256 ^ bs.length =
        acc.toNat * 256 ^ (bs.length + 1) + b.toNat * 256 ^ bs.length := by ring
    rw [List.foldl_cons, ih, hstep, hrest, add_assoc]
    rw [hstep, hrest, add_assoc]
    exact h

end Bits
