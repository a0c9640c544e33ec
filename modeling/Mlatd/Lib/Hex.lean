/-
  Hexadecimal text to bytes: pairs of digits of either case, nothing else.

  `Reads cs bs` is the relation: the characters `cs` are the bytes `bs`, two digits to a byte, the
  high one first. The texts that have a reading are the even numbers of digits
  (`exists_reads_iff`), and `decode` computes it (`decode_iff`).
-/
import Mathlib.Data.List.Induction
import Mlatd.Lib.Bits

namespace Hex

def digit (c : Char) : Option UInt8 :=
  if '0' ≤ c ∧ c ≤ '9' then some (c.toNat - 48).toUInt8
  else if 'a' ≤ c ∧ c ≤ 'f' then some (c.toNat - 87).toUInt8
  else if 'A' ≤ c ∧ c ≤ 'F' then some (c.toNat - 55).toUInt8
  else none

def bytes : List Char → Option (List UInt8)
  | [] => some []
  | [_] => none
  | a :: b :: cs =>
    match digit a, digit b, bytes cs with
    | some x, some y, some bs => some ((x <<< 4 ||| y) :: bs)
    | _, _, _ => none

/-- `hex::decode` -/
def decode (s : String) : Option (List UInt8) := bytes s.toList

example : decode "8D4840d6" = some [0x8d, 0x48, 0x40, 0xd6] := by decide +kernel

/-- The characters read as the bytes. -/
inductive Reads : List Char → List UInt8 → Prop
  | nil : Reads [] []
  | cons {a b : Char} {x y : UInt8} {cs : List Char} {bs : List UInt8} :
      digit a = some x → digit b = some y → Reads cs bs →
      Reads (a :: b :: cs) (UInt8.ofNat (16 * x.toNat + y.toNat) :: bs)

/-- A digit's character, by its code. -/
theorem digit_cases {c : Char} {x : UInt8} (h : digit c = some x) :
    (48 ≤ c.toNat ∧ c.toNat ≤ 57 ∧ x = (c.toNat - 48).toUInt8) ∨
    (97 ≤ c.toNat ∧ c.toNat ≤ 102 ∧ x = (c.toNat - 87).toUInt8) ∨
    (65 ≤ c.toNat ∧ c.toNat ≤ 70 ∧ x = (c.toNat - 55).toUInt8) := by
  unfold digit at h
  split at h
  · next hc => exact Or.inl ⟨hc.1, hc.2, (Option.some.inj h).symm⟩
  split at h
  · next hc => exact Or.inr (Or.inl ⟨hc.1, hc.2, (Option.some.inj h).symm⟩)
  split at h
  · next hc => exact Or.inr (Or.inr ⟨hc.1, hc.2, (Option.some.inj h).symm⟩)
  · cases h

theorem toNat_digit {c : Char} {x : UInt8} (h : digit c = some x) : x.toNat < 16 := by
  have hsub (n : ℕ) (hn : n < 16) : n.toUInt8.toNat < 16 := by
    rw [UInt8.toNat_ofNat_of_lt' (by unfold UInt8.size; omega)]
    exact hn
  rcases digit_cases h with ⟨h1, h2, rfl⟩ | ⟨h1, h2, rfl⟩ | ⟨h1, h2, rfl⟩
  · exact hsub _ (by omega)
  · exact hsub _ (by omega)
  · exact hsub _ (by omega)

/-- A digit takes one byte of the text. -/
theorem utf8Size_digit {c : Char} {x : UInt8} (h : digit c = some x) : c.utf8Size = 1 := by
  have hc : c.toNat ≤ 127 := by
    rcases digit_cases h with h | h | h <;> omega
  exact Char.utf8Size_eq_one_iff.2 (UInt32.le_iff_toNat_le.2 hc)

/-- The byte of two digits. -/
theorem shift_or_digit {x y : UInt8} (hx : x.toNat < 16) (hy : y.toNat < 16) :
    (x <<< 4 ||| y) = UInt8.ofNat (16 * x.toNat + y.toNat) := by
  have hshift : (x <<< 4).toNat = x.toNat * 16 := by
    rw [UInt8.toNat_shiftLeft, Nat.shiftLeft_eq]
    exact Nat.mod_eq_of_lt (by simp; omega)
  rw [← UInt8.toNat_inj, UInt8.toNat_or, hshift, UInt8.toNat_ofNat',
    Bits.or_eq_add (k := 4) (by omega) (by omega)]
  omega

theorem bytes_iff (cs : List Char) (bs : List UInt8) : bytes cs = some bs ↔ Reads cs bs := by
  constructor
  · intro h
    induction cs using List.twoStepInduction generalizing bs with
    | nil => cases h; exact .nil
    | singleton c => cases h
    | cons_cons a b cs ih =>
      rw [bytes] at h
      split at h
      · next x y bs' hx hy hbs =>
        cases h
        rw [shift_or_digit (toNat_digit hx) (toNat_digit hy)]
        exact .cons hx hy (ih bs' hbs)
      · cases h
  · intro h
    induction h with
    | nil => rfl
    | cons ha hb _ ih =>
      rw [bytes, ha, hb, ih]
      simp only [shift_or_digit (toNat_digit ha) (toNat_digit hb)]

/-- `decode` computes the relation. -/
theorem decode_iff (s : String) (bs : List UInt8) : decode s = some bs ↔ Reads s.toList bs :=
  bytes_iff s.toList bs

namespace Reads
variable {cs : List Char} {bs : List UInt8}

theorem length_eq (h : Reads cs bs) : cs.length = 2 * bs.length := by
  induction h with
  | nil => rfl
  | cons _ _ _ ih =>
    simp only [List.length_cons, ih]
    omega

theorem digits (h : Reads cs bs) : ∀ c ∈ cs, ∃ x, digit c = some x := by
  induction h with
  | nil => exact fun c hc => absurd hc List.not_mem_nil
  | cons ha hb _ ih =>
    intro c hc
    rcases List.mem_cons.1 hc with rfl | hc
    · exact ⟨_, ha⟩
    rcases List.mem_cons.1 hc with rfl | hc
    · exact ⟨_, hb⟩
    · exact ih c hc

/-- Byte `i` and its two characters. -/
theorem byte (h : Reads cs bs) {i : ℕ} (hi : i < bs.length) :
    ∃ a b x y, cs.drop (2 * i) = a :: b :: cs.drop (2 * i + 2) ∧ digit a = some x ∧
      digit b = some y ∧ (bs.getD i 0).toNat = 16 * x.toNat + y.toNat := by
  induction h generalizing i with
  | nil => cases hi
  | @cons a b x y cs bs ha hb _ ih =>
    cases i with
    | zero =>
      refine ⟨a, b, x, y, rfl, ha, hb, ?_⟩
      have hx := toNat_digit ha
      have hy := toNat_digit hb
      exact UInt8.toNat_ofNat_of_lt' (by unfold UInt8.size; omega)
    | succ i => exact ih (Nat.lt_of_succ_lt_succ hi)

end Reads

/-- The texts that have a reading are the even numbers of digits. -/
theorem exists_reads_iff (cs : List Char) :
    (∃ bs, Reads cs bs) ↔ cs.length % 2 = 0 ∧ ∀ c ∈ cs, ∃ x, digit c = some x := by
  constructor
  · rintro ⟨bs, h⟩
    refine ⟨?_, h.digits⟩
    rw [h.length_eq]
    omega
  · intro h
    induction cs using List.twoStepInduction with
    | nil => exact ⟨[], .nil⟩
    | singleton c => exact absurd h.1 (by simp)
    | cons_cons a b cs ih =>
      obtain ⟨hlen, hall⟩ := h
      simp only [List.length_cons] at hlen
      obtain ⟨x, hx⟩ := hall a (by simp)
      obtain ⟨y, hy⟩ := hall b (by simp)
      obtain ⟨bs, hbs⟩ := ih ⟨by omega, fun c hc => hall c (by simp [hc])⟩
      exact ⟨_, .cons hx hy hbs⟩

end Hex
