/-
  Exact arithmetic, for any field: the operations of `F64` are those of the field.

  `ℝ` and `ℚ` are exact. A fact about code that uses the field's operations, comparisons, casts
  and rounding is proved once, over `F64.Exact`, and holds of both.
-/
import Mlatd.Lib.F64

namespace F64

/-- The arithmetic, the comparisons, the casts and the rounding are the field's. -/
class Exact (K : Type) [Field K] [LinearOrder K] [FloorRing K] [F64 K] : Prop where
  add (a b : K) : F64.toAdd.add a b = a + b
  sub (a b : K) : F64.toSub.sub a b = a - b
  mul (a b : K) : F64.toMul.mul a b = a * b
  div (a b : K) : F64.toDiv.div a b = a / b
  neg (a : K) : F64.toNeg.neg a = -a
  lt (a b : K) : F64.toLT.lt a b ↔ a < b
  le (a b : K) : F64.toLE.le a b ↔ a ≤ b
  lit (m : ℕ) (s : Bool) (e : ℕ) :
    (F64.toOfScientific.ofScientific m s e : K) = OfScientific.ofScientific m s e
  ofInt (n : ℤ) : (F64.ofInt n : K) = n
  trunc (a : K) : F64.trunc a = if 0 ≤ a then ⌊a⌋ else ⌈a⌉
  floor (a : K) : F64.floor a = ⌊a⌋
  rem (a b : K) : F64.rem a b = a - b * (if 0 ≤ a / b then ⌊a / b⌋ else ⌈a / b⌉ : ℤ)
  max (a b : K) : F64.max a b = Max.max a b
  abs (a : K) : F64.abs a = |a|

instance instExactReal : Exact ℝ where
  add _ _ := rfl
  sub _ _ := rfl
  mul _ _ := rfl
  div _ _ := rfl
  neg _ := rfl
  lt _ _ := Iff.rfl
  le _ _ := Iff.rfl
  lit _ _ _ := rfl
  ofInt _ := rfl
  trunc _ := rfl
  floor _ := rfl
  rem _ _ := rfl
  max _ _ := rfl
  abs _ := rfl

instance instExactRat : Exact ℚ where
  add _ _ := rfl
  sub _ _ := rfl
  mul _ _ := rfl
  div _ _ := rfl
  neg _ := rfl
  lt _ _ := Iff.rfl
  le _ _ := Iff.rfl
  lit _ _ _ := rfl
  ofInt _ := rfl
  trunc _ := rfl
  floor _ := rfl
  rem _ _ := rfl
  max _ _ := rfl
  abs _ := rfl

namespace Exact

variable {K : Type} [Field K] [LinearOrder K] [FloorRing K] [F64 K] [Exact K]

theorem hadd (a b : K) : @HAdd.hAdd K K K (@instHAdd K F64.instAdd) a b = a + b := Exact.add a b

theorem hsub (a b : K) : @HSub.hSub K K K (@instHSub K F64.instSub) a b = a - b := Exact.sub a b

theorem hmul (a b : K) : @HMul.hMul K K K (@instHMul K F64.instMul) a b = a * b := Exact.mul a b

theorem hdiv (a b : K) : @HDiv.hDiv K K K (@instHDiv K F64.instDiv) a b = a / b := Exact.div a b

theorem hlt (a b : K) : @LT.lt K F64.instLT a b ↔ a < b := Exact.lt a b

theorem hle (a b : K) : @LE.le K F64.instLE a b ↔ a ≤ b := Exact.le a b

theorem literal (m : ℕ) (s : Bool) (e : ℕ) :
    (@OfScientific.ofScientific K F64.instOfScientific m s e) = OfScientific.ofScientific m s e :=
  Exact.lit m s e

theorem ofNat (n : ℕ) : (F64.ofNat n : K) = n := by
  unfold F64.ofNat
  rw [Exact.ofInt, Int.cast_natCast]

end Exact

/-- `total_cmp` is a total order. -/
class TotalCmp (F : Type) [F64 F] : Prop where
  total (x y : F) : totalLe x y = true ∨ totalLe y x = true
  trans {x y z : F} (hxy : totalLe x y = true) (hyz : totalLe y z = true) : totalLe x z = true

instance instTotalCmpReal : TotalCmp ℝ where
  total x y := (le_total x y).imp decide_eq_true decide_eq_true
  trans hxy hyz := decide_eq_true ((of_decide_eq_true hxy).trans (of_decide_eq_true hyz))

instance instTotalCmpRat : TotalCmp ℚ where
  total x y := (le_total x y).imp decide_eq_true decide_eq_true
  trans hxy hyz := decide_eq_true ((of_decide_eq_true hxy).trans (of_decide_eq_true hyz))

/-- Comparing and subtracting go together. -/
class Ordered (F : Type) [F64 F] : Prop where
  le_refl (a : F) : a ≤ a
  le_trans {a b c : F} (hab : a ≤ b) (hbc : b ≤ c) : a ≤ c
  le_of_not_lt {a b : F} (h : ¬ a < b) : b ≤ a
  sub_le_sub_left {a b : F} (h : a ≤ b) (c : F) : c - b ≤ c - a

instance instOrderedReal : Ordered ℝ where
  le_refl := le_refl
  le_trans := le_trans
  le_of_not_lt := le_of_not_gt
  sub_le_sub_left := sub_le_sub_left

instance instOrderedRat : Ordered ℚ where
  le_refl := le_refl
  le_trans := le_trans
  le_of_not_lt := le_of_not_gt
  sub_le_sub_left := sub_le_sub_left

section
variable {F α : Type} [F64 F] [TotalCmp F] (f : α → F)

/-- Comparing by a key with `total_cmp` is total, -/
theorem TotalCmp.total_on : Std.Total fun a b : α => totalLe (f a) (f b) = true :=
  ⟨fun a b => TotalCmp.total (f a) (f b)⟩

/-- and transitive. -/
theorem TotalCmp.trans_on : IsTrans α fun a b : α => totalLe (f a) (f b) = true :=
  ⟨fun _ _ _ hab hbc => TotalCmp.trans hab hbc⟩

end

theorem sum_eq (xs : List ℝ) : sum xs = xs.sum := by
  have h : (0.0 : ℝ) = 0 := by norm_num
  rw [sum, h, List.sum_eq_foldl]

end F64
