/-
  Words of bits as polynomials over GF(2), and a shift register as polynomial division.

  A list of bits, the highest first, is the polynomial `ofBits`, and `msb k n` are the lowest `k`
  bits of a number. A register of `k` bits that is shifted and, on a carry, added to `c` holds the
  remainder modulo `generator k c` (`ofBits_shift`), whatever the bits above the `k` hold. Two
  words of one length that differ within `k` consecutive bits have different remainders
  (`burst_detected`).
-/
import Mathlib.Algebra.CharP.Two
import Mathlib.Algebra.Field.ZMod
import Mathlib.Algebra.Polynomial.FieldDivision

namespace Gf2

open Polynomial

abbrev Poly : Type := (ZMod 2)[X]

/-! ## Lists of bits -/

noncomputable def ofBit (b : Bool) : Poly := if b then 1 else 0

/-- The polynomial of a word, its highest bit first. -/
noncomputable def ofBits : List Bool → Poly
  | [] => 0
  | b :: bs => ofBit b * X ^ bs.length + ofBits bs

theorem ofBit_xor (a b : Bool) : ofBit (a ^^ b) = ofBit a + ofBit b := by
  cases a <;> cases b <;> simp [ofBit, CharTwo.add_self_eq_zero]

theorem ofBits_append (bs cs : List Bool) :
    ofBits (bs ++ cs) = ofBits bs * X ^ cs.length + ofBits cs := by
  induction bs with
  | nil => simp [ofBits]
  | cons b bs ih =>
    simp only [List.cons_append, ofBits, ih, List.length_append, pow_add]
    ring

theorem ofBits_replicate_false (n : ℕ) : ofBits (List.replicate n false) = 0 := by
  induction n with
  | zero => rfl
  | succ n ih => rw [List.replicate_succ, ofBits, ih, ofBit]; simp

theorem degree_ofBits_lt (bs : List Bool) : (ofBits bs).degree < bs.length := by
  induction bs with
  | nil => simp [ofBits]
  | cons b bs ih =>
    have htop : (ofBit b * X ^ bs.length).degree ≤ (bs.length : WithBot ℕ) := by
      cases b with
      | true => rw [ofBit, if_pos rfl, one_mul, degree_X_pow]
      | false => rw [ofBit, if_neg Bool.false_ne_true, zero_mul, degree_zero]; exact bot_le
    rw [ofBits, List.length_cons]
    refine (degree_add_le _ _).trans_lt (max_lt ?_ ?_)
    · exact htop.trans_lt (by exact_mod_cast Nat.lt_succ_self _)
    · exact ih.trans (by exact_mod_cast Nat.lt_succ_self _)

theorem coeff_ofBit_mul (b : Bool) (n : ℕ) :
    (ofBit b * X ^ n : Poly).coeff n = if b then 1 else 0 := by
  cases b <;> simp [ofBit]

/-- Words of one length are told apart by their polynomials. -/
theorem ofBits_injective {bs cs : List Bool} (hlen : bs.length = cs.length)
    (h : ofBits bs = ofBits cs) : bs = cs := by
  induction bs generalizing cs with
  | nil => exact (List.length_eq_zero_iff.1 hlen.symm).symm
  | cons b bs ih =>
    cases cs with
    | nil => cases hlen
    | cons c cs =>
      have hlen' : bs.length = cs.length := Nat.succ.inj hlen
      have htop (d : Bool) (ds : List Bool) :
          (ofBits (d :: ds)).coeff ds.length = if d then 1 else 0 := by
        rw [ofBits, coeff_add, coeff_ofBit_mul, coeff_eq_zero_of_degree_lt (degree_ofBits_lt ds),
          add_zero]
      have hbc : b = c := by
        have h1 := htop b bs
        rw [h, hlen', htop c cs] at h1
        cases b <;> cases c <;> simp_all
      rw [ofBits, ofBits, hbc, hlen'] at h
      rw [hbc, ih hlen' (add_left_cancel h)]

/-! ## Numbers -/

/-- The lowest `k` bits of a number, the highest first. -/
def msb : ℕ → ℕ → List Bool
  | 0, _ => []
  | k + 1, n => n.testBit k :: msb k n

@[simp] theorem length_msb (k n : ℕ) : (msb k n).length = k := by
  induction k with
  | zero => rfl
  | succ k ih => rw [msb, List.length_cons, ih]

theorem msb_congr {k m n : ℕ} (h : ∀ i < k, m.testBit i = n.testBit i) : msb k m = msb k n := by
  induction k with
  | zero => rfl
  | succ k ih =>
    rw [msb, msb, h k (Nat.lt_succ_self k), ih fun i hi => h i (Nat.lt_succ_of_lt hi)]

theorem testBit_of_msb_eq {k m n : ℕ} (h : msb k m = msb k n) :
    ∀ i < k, m.testBit i = n.testBit i := by
  induction k with
  | zero => exact fun i hi => absurd hi (Nat.not_lt_zero i)
  | succ k ih =>
    obtain ⟨htop, hrest⟩ := List.cons.inj h
    intro i hi
    rcases Nat.lt_succ_iff_lt_or_eq.1 hi with hi | rfl
    · exact ih hrest i hi
    · exact htop

theorem msb_add (j k n : ℕ) : msb (j + k) n = msb j (n >>> k) ++ msb k n := by
  induction j with
  | zero => rw [Nat.zero_add]; rfl
  | succ j ih =>
    rw [Nat.succ_add, msb, msb, ih, Nat.testBit_shiftRight, Nat.add_comm k j, List.cons_append]

theorem msb_shiftLeft (k j n : ℕ) : msb (k + j) (n <<< j) = msb k n ++ List.replicate j false := by
  rw [msb_add, Nat.shiftLeft_shiftRight]
  refine congrArg (msb k n ++ ·) (List.eq_replicate_iff.2 ⟨length_msb j _, ?_⟩)
  have hlow : ∀ i ≤ j, ∀ b ∈ msb i (n <<< j), b = false := by
    intro i hi
    induction i with
    | zero => exact fun b hb => absurd hb List.not_mem_nil
    | succ i ih =>
      intro b hb
      rcases List.mem_cons.1 hb with rfl | hb
      · rw [Nat.testBit_shiftLeft, decide_eq_false (by omega), Bool.false_and]
      · exact ih (by omega) b hb
  exact hlow j le_rfl

/-- The polynomial of the lowest `k` bits of a number. -/
noncomputable abbrev word (k n : ℕ) : Poly := ofBits (msb k n)

theorem degree_word_lt (k n : ℕ) : (word k n).degree < k := by
  have h := degree_ofBits_lt (msb k n)
  rwa [length_msb] at h

theorem word_xor (k m n : ℕ) : word k (m ^^^ n) = word k m + word k n := by
  induction k with
  | zero => exact (add_zero 0).symm
  | succ k ih =>
    rw [word, word, word] at ih
    simp only [word, msb, ofBits, length_msb, Nat.testBit_xor, ofBit_xor, ih]
    ring

theorem word_shiftLeft (k j n : ℕ) : word (k + j) (n <<< j) = word k n * X ^ j := by
  rw [word, msb_shiftLeft, ofBits_append, ofBits_replicate_false, add_zero, List.length_replicate]

/-- Bits above those of a number add nothing. -/
theorem word_of_lt {k n : ℕ} (h : n < 2 ^ k) (j : ℕ) : word (j + k) n = word k n := by
  have hzero : ofBits (msb j 0) = 0 := by
    have h1 := word_xor j 0 0
    rwa [Nat.xor_self, left_eq_add] at h1
  have hshift : n >>> k = 0 := by rw [Nat.shiftRight_eq_div_pow, Nat.div_eq_of_lt h]
  rw [word, msb_add, ofBits_append, hshift, hzero, zero_mul, zero_add]

/-- Numbers below `2 ^ k` are told apart by their polynomials. -/
theorem word_injective {k m n : ℕ} (hm : m < 2 ^ k) (hn : n < 2 ^ k) (h : word k m = word k n) :
    m = n := by
  have hbits := testBit_of_msb_eq (ofBits_injective (by simp) h)
  apply Nat.eq_of_testBit_eq
  intro i
  by_cases hi : i < k
  · exact hbits i hi
  · have hpow : 2 ^ k ≤ 2 ^ i := Nat.pow_le_pow_right (by decide) (by omega)
    rw [Nat.testBit_lt_two_pow (by omega), Nat.testBit_lt_two_pow (by omega)]

/-! ## The register -/

/-- The generator of a register of `k` bits: its top term, and the bits added on a carry. -/
noncomputable def generator (k c : ℕ) : Poly := X ^ k + word k c

theorem generator_monic (k c : ℕ) : (generator k c).Monic :=
  monic_X_pow_add (degree_word_lt k c)

theorem degree_generator (k c : ℕ) : (generator k c).degree = k := by
  rw [generator, degree_add_eq_left_of_degree_lt] <;> rw [degree_X_pow]
  exact degree_word_lt k c

/-- One shift of the register; what leaves at the top is not cleared. -/
def shift (k c r : ℕ) : ℕ := if (r <<< 1).testBit k then (r <<< 1) ^^^ c else r <<< 1

section
variable (k c : ℕ)

theorem word_modByMonic (n : ℕ) : word k n %ₘ generator k c = word k n := by
  rw [modByMonic_eq_self_iff (generator_monic k c), degree_generator]
  exact degree_word_lt k n

/-- A factor may be reduced before the product is. -/
theorem mul_modByMonic (p q : Poly) :
    (p * (q %ₘ generator k c)) %ₘ generator k c = (p * q) %ₘ generator k c := by
  apply modByMonic_eq_of_dvd_sub (generator_monic k c)
  rw [← mul_sub]
  exact Dvd.dvd.mul_left (dvd_modByMonic_sub q _) p

/-- One shift multiplies by `X` and divides by the generator. -/
theorem word_shift (r : ℕ) : word k (shift k c r) = (X * word k r) %ₘ generator k c := by
  have hshift : X * word k r = ofBit ((r <<< 1).testBit k) * X ^ k + word k (r <<< 1) := by
    have h := word_shiftLeft k 1 r
    rw [pow_one, mul_comm] at h
    rw [← h, word, msb, ofBits, length_msb]
  rw [hshift]
  cases hc : (r <<< 1).testBit k with
  | false =>
    rw [shift, hc, if_neg Bool.false_ne_true, ofBit, if_neg Bool.false_ne_true, zero_mul, zero_add,
      word_modByMonic]
  | true =>
    -- The carry stands for `X ^ k`, which is `word k c` modulo the generator.
    have hcarry : (X ^ k : Poly) %ₘ generator k c = word k c := by
      rw [← word_modByMonic k c c]
      apply modByMonic_eq_of_dvd_sub (generator_monic k c)
      rw [CharTwo.sub_eq_add]
      exact dvd_refl _
    rw [shift, hc, if_pos rfl, word_xor, ofBit, if_pos rfl, one_mul, add_modByMonic, hcarry,
      word_modByMonic, add_comm]

end

/-! ## Bursts -/

/-- Two words of one length that differ, within `w` consecutive bits. -/
structure Burst (w : ℕ) (bs cs : List Bool) : Prop where
  length_eq : bs.length = cs.length
  ne : bs ≠ cs
  span : ∃ s, ∀ i, bs[i]? ≠ cs[i]? → s ≤ i ∧ i < s + w

/-- The two words are equal before the burst and after it. -/
theorem Burst.split {w : ℕ} {bs cs : List Bool} (h : Burst w bs cs) :
    ∃ pre mid mid' post, bs = pre ++ (mid ++ post) ∧ cs = pre ++ (mid' ++ post) ∧
      mid.length = mid'.length ∧ mid.length ≤ w ∧ mid ≠ mid' := by
  obtain ⟨s, hs⟩ := h.span
  have hpre : bs.take s = cs.take s := by
    apply List.ext_getElem?
    intro i
    rw [List.getElem?_take, List.getElem?_take]
    by_contra hne
    by_cases hi : i < s
    · rw [if_pos hi, if_pos hi] at hne
      exact absurd (hs i hne).1 (by omega)
    · rw [if_neg hi, if_neg hi] at hne
      exact hne rfl
  have hpost : (bs.drop s).drop w = (cs.drop s).drop w := by
    apply List.ext_getElem?
    intro i
    rw [List.drop_drop, List.drop_drop, List.getElem?_drop, List.getElem?_drop]
    by_contra hne
    exact absurd (hs _ hne).2 (by omega)
  have hbs : bs = bs.take s ++ ((bs.drop s).take w ++ (bs.drop s).drop w) := by
    rw [List.take_append_drop, List.take_append_drop]
  have hcs : cs = bs.take s ++ ((cs.drop s).take w ++ (bs.drop s).drop w) := by
    rw [hpre, hpost, List.take_append_drop, List.take_append_drop]
  refine ⟨_, _, _, _, hbs, hcs, ?_, List.length_take_le w _, fun hmid => h.ne ?_⟩
  · rw [List.length_take, List.length_take, List.length_drop, List.length_drop, h.length_eq]
  · rw [hbs, hcs, hmid]

/-- No power of `X` shares a factor with a generator whose last bit is set. -/
theorem coprime_generator {k c : ℕ} (hk : 0 < k) (hc : c.testBit 0 = true) (m : ℕ) :
    IsCoprime (generator k c) (X ^ m) := by
  have hlast : (word k c).coeff 0 = 1 := by
    obtain ⟨j, rfl⟩ := Nat.exists_eq_add_of_le' hk
    rw [word, msb_add, ofBits_append]
    simp [msb, ofBits, ofBit, hc]
  have hnot : ¬ (X : Poly) ∣ generator k c := by
    rw [X_dvd_iff, generator, coeff_add, hlast, coeff_X_pow, if_neg (by omega), zero_add]
    exact one_ne_zero
  have hX : Irreducible (X : Poly) := irreducible_X
  exact (hX.coprime_iff_not_dvd.2 hnot).pow_left.symm

/-- **A burst no wider than the register changes the remainder.** -/
theorem burst_detected {k c : ℕ} (hk : 0 < k) (hc : c.testBit 0 = true) (m : ℕ)
    {bs cs : List Bool} (h : Burst k bs cs) :
    (ofBits bs * X ^ m) %ₘ generator k c ≠ (ofBits cs * X ^ m) %ₘ generator k c := by
  obtain ⟨pre, mid, mid', post, rfl, rfl, hlen, hw, hne⟩ := h.split
  intro heq
  have hdvd : generator k c ∣
      (ofBits (pre ++ (mid ++ post)) * X ^ m) - ofBits (pre ++ (mid' ++ post)) * X ^ m := by
    rw [← modByMonic_eq_zero_iff_dvd (generator_monic k c), sub_modByMonic, heq, sub_self]
  have hdiff : (ofBits (pre ++ (mid ++ post)) * X ^ m) - ofBits (pre ++ (mid' ++ post)) * X ^ m =
      (ofBits mid - ofBits mid') * X ^ (post.length + m) := by
    simp only [ofBits_append, List.length_append, hlen, pow_add]
    ring
  rw [hdiff] at hdvd
  have hdvd' := (coprime_generator hk hc _).dvd_of_dvd_mul_right hdvd
  have hdeg : (ofBits mid - ofBits mid').degree < (generator k c).degree := by
    have hwk : ((mid.length : ℕ) : WithBot ℕ) ≤ (k : ℕ) := by exact_mod_cast hw
    rw [degree_generator]
    refine (degree_sub_le _ _).trans_lt (max_lt ?_ ?_)
    · exact (degree_ofBits_lt mid).trans_le hwk
    · exact (degree_ofBits_lt mid').trans_le (hlen ▸ hwk)
  exact hne (ofBits_injective hlen (sub_eq_zero.1 (eq_zero_of_dvd_of_degree_lt hdvd' hdeg)))

end Gf2
