/-
  The operations of a 64-bit float, as a class, and two exact readings of it.

  Code over `F64 F` uses the arithmetic, the comparisons, the elementary functions, the casts and
  the decimal formatting of `f64`, and no law about them: what is proved for every `F` holds
  under rounding, signed zeros and NaN as well. `ℝ` is exact arithmetic. `ℚ` has exact field
  operations, comparisons and casts (every finite `f64` is a rational), and its roots and
  trigonometry are rounded to `2^-64`; it computes, so runs on concrete inputs are decided in it.

  The cast `x as i64` truncates toward zero and saturates; `trunc` is the unsaturated integer,
  `asI16`, `asI64` and so on clamp it.
-/
import Mathlib.Data.Rat.Floor
import Mathlib.Analysis.SpecialFunctions.Complex.Arg
import Mathlib.Analysis.SpecialFunctions.Trigonometric.Inverse

/-- The operations of `f64`. -/
class F64 (F : Type) where
  toAdd : Add F
  toSub : Sub F
  toMul : Mul F
  toDiv : Div F
  toNeg : Neg F
  toLT : LT F
  toLE : LE F
  toOfScientific : OfScientific F
  decLt : DecidableLT F
  decLe : DecidableLE F
  /-- `n as f64` -/
  ofInt : ℤ → F
  /-- `x as i64`, before saturation -/
  trunc : F → ℤ
  floor : F → F
  /-- `x.round()`, half away from zero -/
  round : F → F
  /-- `x % y` -/
  rem : F → F → F
  remEuclid : F → F → F
  max : F → F → F
  min : F → F → F
  abs : F → F
  sqrt : F → F
  hypot : F → F → F
  sin : F → F
  cos : F → F
  atan2 : F → F → F
  asin : F → F
  acos : F → F
  pi : F
  /-- `a.total_cmp(&b).is_le()` -/
  totalLe : F → F → Bool
  isFinite : F → Bool
  /-- `format!("{:.n}", x)` -/
  fmt : ℕ → F → String

-- On `ℝ` and `ℚ` the operations of Mathlib are found first.
section
variable {F : Type} [F64 F]

instance (priority := 10) F64.instAdd : Add F := F64.toAdd
instance (priority := 10) F64.instSub : Sub F := F64.toSub
instance (priority := 10) F64.instMul : Mul F := F64.toMul
instance (priority := 10) F64.instDiv : Div F := F64.toDiv
instance (priority := 10) F64.instNeg : Neg F := F64.toNeg
instance (priority := 10) F64.instLT : LT F := F64.toLT
instance (priority := 10) F64.instLE : LE F := F64.toLE
instance (priority := 10) F64.instOfScientific : OfScientific F := F64.toOfScientific

end

namespace F64

variable {F : Type} [F64 F]

instance (priority := 10) : DecidableLT F := decLt
instance (priority := 10) : DecidableLE F := decLe
instance (priority := 10) : Inhabited F := ⟨0.0⟩

/-- `n as f64` for an unsigned `n`. -/
def ofNat (n : ℕ) : F := ofInt n

/-- `x.powi(2)` -/
def sq (x : F) : F := x * x

/-- `x.powi(3)` -/
def cube (x : F) : F := x * x * x

def clamp (x lo hi : F) : F := max lo (min x hi)

/-- `x.to_radians()` -/
def toRadians (x : F) : F := x * (pi / 180.0)

/-- `x.to_degrees()` -/
def toDegrees (x : F) : F := x * (180.0 / pi)

/-- An integer clamped to the range of a cast. -/
def saturate (lo hi n : ℤ) : ℤ := Max.max lo (Min.min n hi)

/-- `x as i16` -/
def asI16 (x : F) : ℤ := saturate (-32768) 32767 (trunc x)

/-- `x as i64` -/
def asI64 (x : F) : ℤ := saturate (-9223372036854775808) 9223372036854775807 (trunc x)

/-- `x as u32` -/
def asU32 (x : F) : ℕ := (saturate 0 4294967295 (trunc x)).toNat

/-- `x as u64` -/
def asU64 (x : F) : ℕ := (saturate 0 18446744073709551615 (trunc x)).toNat

/-- `xs.iter().sum()` -/
def sum (xs : List F) : F := xs.foldl (· + ·) 0.0

/-- `xs.iter().fold(f64::INFINITY, f64::min)`; `none` is the infinity of the empty list. -/
def foldMin (xs : List F) : Option F :=
  xs.foldl (fun acc x => some (match acc with | none => x | some a => min a x)) none

/-- A duration of `n` nanoseconds, `as_secs_f64`. -/
def ofNanos (n : ℕ) : F := OfScientific.ofScientific n true 9

end F64

/-! ## Decimal output of an exact number -/

namespace F64

/-- The nearest integer, ties to even. -/
def roundHalfEven {K : Type} [Field K] [LinearOrder K] [FloorRing K] (x : K) : ℤ :=
  let n := ⌊x⌋
  let d := x - n
  if d < 1 / 2 then n else if 1 / 2 < d then n + 1 else if n % 2 = 0 then n else n + 1

section
variable {K : Type} [Field K] [LinearOrder K] [FloorRing K] {x : K}

theorem roundHalfEven_nonneg (h : 0 ≤ x) : 0 ≤ roundHalfEven x := by
  have hfloor : 0 ≤ ⌊x⌋ := Int.floor_nonneg.2 h
  unfold roundHalfEven
  simp only
  split_ifs <;> omega

theorem roundHalfEven_nonpos (h : x < 0) : roundHalfEven x ≤ 0 := by
  have hfloor : ⌊x⌋ < 0 := Int.floor_lt_zero.2 h
  unfold roundHalfEven
  simp only
  split_ifs <;> omega

end

/-- `k` in decimal, padded with zeros to `w` digits. -/
def padNat (w k : ℕ) : String :=
  let ds := Nat.toDigits 10 k
  String.ofList (List.replicate (w - ds.length) '0' ++ ds)

/-- `a / 10^n` with `n` digits after the point and the sign in front, that of zero too. -/
def decimal (n : ℕ) (neg : Bool) (a : ℕ) : String :=
  let s := toString (a / 10 ^ n) ++ (if n = 0 then "" else "." ++ padNat n (a % 10 ^ n))
  if neg then "-" ++ s else s

end F64

/-! ## Exact real arithmetic -/

noncomputable instance F64.instReal : F64 ℝ where
  toAdd := inferInstance
  toSub := inferInstance
  toMul := inferInstance
  toDiv := inferInstance
  toNeg := inferInstance
  toLT := inferInstance
  toLE := inferInstance
  toOfScientific := inferInstance
  decLt := inferInstance
  decLe := inferInstance
  ofInt n := n
  trunc x := if 0 ≤ x then ⌊x⌋ else ⌈x⌉
  floor x := ⌊x⌋
  round x := if 0 ≤ x then ⌊x + 1 / 2⌋ else ⌈x - 1 / 2⌉
  rem x y := x - y * (if 0 ≤ x / y then ⌊x / y⌋ else ⌈x / y⌉ : ℤ)
  remEuclid x y := x - |y| * ⌊x / |y|⌋
  max := Max.max
  min := Min.min
  abs x := |x|
  sqrt := Real.sqrt
  hypot x y := Real.sqrt (x ^ 2 + y ^ 2)
  sin := Real.sin
  cos := Real.cos
  atan2 y x := Complex.arg ⟨x, y⟩
  asin := Real.arcsin
  acos := Real.arccos
  pi := Real.pi
  totalLe x y := decide (x ≤ y)
  isFinite _ := true
  fmt n x := F64.decimal n (decide (x < 0)) (F64.roundHalfEven (x * 10 ^ n)).natAbs

/-- A decimal literal of code over `F64` is Mathlib's literal on `ℝ`. -/
theorem F64.real_ofScientific (m : ℕ) (s : Bool) (e : ℕ) :
    @OfScientific.ofScientific ℝ F64.toOfScientific m s e = OfScientific.ofScientific m s e := rfl

theorem F64.real_ofNanos (n : ℕ) : (F64.ofNanos n : ℝ) = n / 10 ^ 9 := by
  unfold F64.ofNanos
  rw [F64.real_ofScientific, NNRatCast.ofScientific_eq_ite]
  norm_num

/-! ## Rational arithmetic -/

namespace F64.Rational

/-- The nearest multiple of `2^-64`. -/
def grid (x : ℚ) : ℚ := ⌊x * 2 ^ 64 + 1 / 2⌋ / 2 ^ 64

def sqrt (x : ℚ) : ℚ := (Nat.sqrt (⌊x * 2 ^ 128⌋).toNat : ℚ) / 2 ^ 64

def pi : ℚ := 3.14159265358979323846264338327950288

/-- `∑ (-1)^i · term_i` of the sine series at `x`, `n` terms from the one in `x^(2k+1)`. -/
def sinSeries (x2 : ℚ) : ℕ → ℕ → ℚ → ℚ
  | 0, _, _ => 0
  | n + 1, k, term =>
    term + sinSeries x2 n (k + 1) (grid (-(term * x2) / ((2 * k + 2) * (2 * k + 3))))

def sin (x : ℚ) : ℚ :=
  let y := x - 2 * pi * ⌊x / (2 * pi) + 1 / 2⌋
  sinSeries (grid (y * y)) 20 0 (grid y)

def cos (x : ℚ) : ℚ := sin (x + pi / 2)

/-- The arctangent series at `x`, `n` terms from the one in `x^(2k+1)`. -/
def atanSeries (x2 : ℚ) : ℕ → ℕ → ℚ → ℚ
  | 0, _, _ => 0
  | n + 1, k, pow => grid (pow / (2 * k + 1)) + atanSeries x2 n (k + 1) (grid (-(pow * x2)))

/-- The angle halved `n` times before the series is summed. -/
def atan : ℕ → ℚ → ℚ
  | 0, x => atanSeries (grid (x * x)) 24 0 (grid x)
  | n + 1, x => 2 * atan n (grid (x / (1 + sqrt (1 + x * x))))

def atan2 (y x : ℚ) : ℚ :=
  if 0 < x then atan 3 (y / x)
  else if x < 0 then if 0 ≤ y then atan 3 (y / x) + pi else atan 3 (y / x) - pi
  else if 0 < y then pi / 2 else if y < 0 then -(pi / 2) else 0

def asin (x : ℚ) : ℚ := atan2 x (sqrt (1 - x * x))

end F64.Rational

instance F64.instRat : F64 ℚ where
  toAdd := inferInstance
  toSub := inferInstance
  toMul := inferInstance
  toDiv := inferInstance
  toNeg := inferInstance
  toLT := inferInstance
  toLE := inferInstance
  toOfScientific := inferInstance
  decLt := inferInstance
  decLe := inferInstance
  ofInt n := n
  trunc x := if 0 ≤ x then ⌊x⌋ else ⌈x⌉
  floor x := ⌊x⌋
  round x := if 0 ≤ x then ⌊x + 1 / 2⌋ else ⌈x - 1 / 2⌉
  rem x y := x - y * (if 0 ≤ x / y then ⌊x / y⌋ else ⌈x / y⌉ : ℤ)
  remEuclid x y := x - |y| * ⌊x / |y|⌋
  max := Max.max
  min := Min.min
  abs x := |x|
  sqrt := F64.Rational.sqrt
  hypot x y := F64.Rational.sqrt (x * x + y * y)
  sin := F64.Rational.sin
  cos := F64.Rational.cos
  atan2 := F64.Rational.atan2
  asin := F64.Rational.asin
  acos x := F64.Rational.pi / 2 - F64.Rational.asin x
  pi := F64.Rational.pi
  totalLe x y := decide (x ≤ y)
  isFinite _ := true
  fmt n x := F64.decimal n (decide (x < 0)) (F64.roundHalfEven (x * 10 ^ n)).natAbs
