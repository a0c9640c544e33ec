/-
  Reading a text: white space, and the number that a text writes.

  `trim` and `trimEnd` are those of `str`, over characters. `parseF64` reads the grammar of
  `str::parse::<f64>`: a sign, digits with at most one point among them, an exponent, or a word
  for a value that is not finite. What `F64.fmt` writes is read as the number it was rounded
  to (`parseF64_fmt`), and an integer as itself (`parseF64_int`).
-/
import Mathlib.Data.List.DropRight
import Mlatd.Lib.F64

namespace Str

/-! ## White space -/

/-- `char::is_whitespace` -/
def isWhitespace (c : Char) : Bool :=
  let n := c.toNat
  (9 ≤ n && n ≤ 13) || n == 0x20 || n == 0x85 || n == 0xA0 || n == 0x1680 ||
    (0x2000 ≤ n && n ≤ 0x200A) || n == 0x2028 || n == 0x2029 || n == 0x202F || n == 0x205F ||
    n == 0x3000

/-- `str::trim_end` -/
def trimEnd (s : List Char) : List Char := s.rdropWhile isWhitespace

/-- `str::trim` -/
def trim (s : List Char) : List Char := (trimEnd s).dropWhile isWhitespace

theorem isWhitespace_eq_false {c : Char} (h : 0x20 < c.toNat) (h' : c.toNat < 0x80) :
    isWhitespace c = false := by
  unfold isWhitespace
  simp only [Bool.or_eq_false_iff, Bool.and_eq_false_iff, decide_eq_false_iff_not,
    beq_eq_false_iff_ne]
  omega

theorem trim_eq_self {s : List Char} (h : ∀ c ∈ s, isWhitespace c = false) : trim s = s := by
  have hend : trimEnd s = s := by
    apply List.rdropWhile_eq_self_iff.2
    intro hs
    rw [h _ (List.getLast_mem hs)]
    decide
  rw [trim, hend]
  cases s with
  | nil => rfl
  | cons c s => exact List.dropWhile_cons_of_neg (by rw [h c List.mem_cons_self]; decide)

/-- White space after a character that is none is cut off. -/
theorem trimEnd_append {s : List Char} {c : Char} {ws : List Char} (hc : isWhitespace c = false)
    (hws : ∀ w ∈ ws, isWhitespace w = true) : trimEnd (s ++ [c] ++ ws) = s ++ [c] := by
  induction ws using List.reverseRecOn with
  | nil =>
    rw [List.append_nil, trimEnd, List.rdropWhile_concat_neg _ _ _ (by rw [hc]; decide)]
  | append_singleton ws w ih =>
    rw [← List.append_assoc, trimEnd,
      List.rdropWhile_concat_pos _ _ _ (hws w (by simp))]
    exact ih fun v hv => hws v (by simp [hv])

/-! ## Numbers -/

section
variable {F : Type} [F64 F]

/-- The text after its sign, and whether that is a minus. -/
def parseSign : List Char → Bool × List Char
  | '-' :: s => (true, s)
  | '+' :: s => (false, s)
  | s => (false, s)

/-- An exponent to the end of the text. -/
def parseExp : List Char → Option ℤ
  | [] => some 0
  | c :: s =>
    if c = 'e' ∨ c = 'E' then
      let (neg, ds) := parseSign s
      if ds ≠ [] ∧ ds.all Char.isDigit then
        let e : ℤ := Nat.ofDigitChars 10 ds 0
        some (if neg then -e else e)
      else none
    else none

/-- `m * 10^e`, as the literal. -/
def scale (m : ℕ) (e : ℤ) : F := OfScientific.ofScientific m (decide (e < 0)) e.natAbs

/-- Digits with at most one point among them, and an exponent. -/
def parseNumber (s : List Char) : Option F :=
  let ip := s.takeWhile Char.isDigit
  let (fp, s) := match s.dropWhile Char.isDigit with
    | '.' :: s => (s.takeWhile Char.isDigit, s.dropWhile Char.isDigit)
    | s => ([], s)
  if ip ++ fp = [] then none
  else (parseExp s).map fun e => scale (Nat.ofDigitChars 10 (ip ++ fp) 0) (e - fp.length)

/-- The words of the values that are not finite. -/
def parseInfNan (s : List Char) : Option F :=
  let w := String.ofList (s.map Char.toLower)
  if w = "inf" ∨ w = "infinity" then some (1.0 / 0.0)
  else if w = "nan" then some (0.0 / 0.0)
  else none

/-- `str::parse::<f64>` -/
def parseF64 (s : List Char) : Option F :=
  let (neg, s) := parseSign s
  ((parseNumber s).or (parseInfNan s)).map fun x => if neg then -x else x

end

/-! ## Reading what is written -/

theorem scale_real (m : ℕ) (n : ℕ) : (scale m (0 - n) : ℝ) = m / 10 ^ n := by
  unfold scale
  rw [F64.real_ofScientific, NNRatCast.ofScientific_eq_ite]
  cases n with
  | zero => simp
  | succ n =>
    have hneg : (0 : ℤ) - (n + 1 : ℕ) < 0 := by omega
    have habs : ((0 : ℤ) - (n + 1 : ℕ)).natAbs = n + 1 := by omega
    rw [decide_eq_true hneg, if_pos rfl, habs, NNRat.divNat_eq_div]
    push_cast
    rfl

/-- The digits of a whole number. -/
theorem parseNumber_nat (a : ℕ) : (parseNumber (Nat.toDigits 10 a) : Option ℝ) = some (a : ℝ) := by
  have hdigit : ∀ c ∈ Nat.toDigits 10 a, c.isDigit = true := fun c hc =>
    Nat.isDigit_of_mem_toDigits (by decide) (by decide) hc
  have hne : Nat.toDigits 10 a ≠ [] := List.ne_nil_of_length_pos Nat.length_toDigits_pos
  have htake := List.takeWhile_eq_self_iff.2 hdigit
  have hdrop := List.dropWhile_eq_nil_iff.2 hdigit
  unfold parseNumber
  simp only [htake, hdrop, List.append_nil, if_neg hne, parseExp, Option.map_some,
    Nat.ofDigitChars_ten_toDigits, List.length_nil]
  have h := scale_real a 0
  rw [pow_zero, div_one] at h
  exact congrArg some h

/-- Digits, a point and digits. -/
theorem parseNumber_point {ip fp : List Char} (hip : ∀ c ∈ ip, c.isDigit = true) (hne : ip ≠ [])
    (hfp : ∀ c ∈ fp, c.isDigit = true) :
    (parseNumber (ip ++ '.' :: fp) : Option ℝ) =
      some (Nat.ofDigitChars 10 (ip ++ fp) 0 / 10 ^ fp.length : ℝ) := by
  have htake : (ip ++ '.' :: fp).takeWhile Char.isDigit = ip := by
    rw [List.takeWhile_append_of_pos hip, List.takeWhile_cons_of_neg (by decide), List.append_nil]
  have hdrop : (ip ++ '.' :: fp).dropWhile Char.isDigit = '.' :: fp := by
    rw [List.dropWhile_append_of_pos hip, List.dropWhile_cons_of_neg (by decide)]
  have htake' := List.takeWhile_eq_self_iff.2 hfp
  have hdrop' := List.dropWhile_eq_nil_iff.2 hfp
  have hne' : ip ++ fp ≠ [] := List.append_ne_nil_of_left_ne_nil hne _
  unfold parseNumber
  simp only [htake, hdrop, htake', hdrop', if_neg hne', parseExp, Option.map_some, scale_real]

theorem isDigit_of_mem_padNat {w k : ℕ} {c : Char} (h : c ∈ (F64.padNat w k).toList) :
    c.isDigit = true := by
  unfold F64.padNat at h
  rw [String.toList_ofList] at h
  rcases List.mem_append.1 h with h | h
  · rw [List.eq_of_mem_replicate h]
    rfl
  · exact Nat.isDigit_of_mem_toDigits (by decide) (by decide) h

/-- The number of the digits before and after the point. -/
theorem ofDigitChars_padNat {n a b : ℕ} (hn : n ≠ 0) (hb : b < 10 ^ n) :
    Nat.ofDigitChars 10 (Nat.toDigits 10 a ++ (F64.padNat n b).toList) 0 = a * 10 ^ n + b ∧
      (F64.padNat n b).toList.length = n := by
  have hlen : (Nat.toDigits 10 b).length ≤ n :=
    (Nat.length_toDigits_le_iff (by decide) (Nat.pos_of_ne_zero hn)).2 hb
  unfold F64.padNat
  rw [String.toList_ofList]
  constructor
  · rw [Nat.ofDigitChars_append, Nat.ofDigitChars_ten_toDigits, Nat.ofDigitChars_append,
      Nat.ofDigitChars_replicate_zero, Nat.ofDigitChars_eq_ofDigitChars_zero,
      Nat.ofDigitChars_ten_toDigits, ← mul_assoc, ← pow_add, Nat.add_sub_cancel' hlen, mul_comm]
  · rw [List.length_append, List.length_replicate, Nat.sub_add_cancel hlen]

/-- A text that starts with a digit has no sign. -/
theorem parseSign_digit {s : List Char} (h : ∃ c ds, s = c :: ds ∧ c.isDigit = true) :
    parseSign s = (false, s) := by
  obtain ⟨c, ds, rfl, hc⟩ := h
  unfold parseSign
  split
  · next heq => exact absurd hc (by rw [(List.cons.inj heq).1]; decide)
  · next heq => exact absurd hc (by rw [(List.cons.inj heq).1]; decide)
  · rfl

theorem toDigits_head (a : ℕ) (s : List Char) :
    ∃ c ds, Nat.toDigits 10 a ++ s = c :: ds ∧ c.isDigit = true := by
  obtain ⟨c, ds, h⟩ := List.exists_cons_of_length_pos (Nat.length_toDigits_pos (b := 10) (n := a))
  refine ⟨c, ds ++ s, by rw [h, List.cons_append], ?_⟩
  exact Nat.isDigit_of_mem_toDigits (n := a) (by decide) (by decide) (h ▸ List.mem_cons_self)

/-- The sign and the number after it. -/
theorem parseF64_of_digit {s : List Char} {x : ℝ} (h : ∃ c ds, s = c :: ds ∧ c.isDigit = true)
    (hs : parseNumber s = some x) : parseF64 s = some x ∧ parseF64 ('-' :: s) = some (-x) := by
  unfold parseF64
  rw [parseSign_digit h, parseSign]
  simp only [hs, Option.some_or, Option.map_some]
  exact ⟨rfl, rfl⟩

/-- What is written with `n` digits after the point is read as that number. -/
theorem parseF64_decimal {n : ℕ} (hn : n ≠ 0) (neg : Bool) (a : ℕ) :
    parseF64 (F64.decimal n neg a).toList =
      some (if neg then -(a / 10 ^ n) else a / 10 ^ n : ℝ) := by
  have hmod := Nat.mod_lt a (Nat.pow_pos (n := n) (show 0 < 10 by decide))
  obtain ⟨hval, hlen⟩ := ofDigitChars_padNat (a := a / 10 ^ n) hn hmod
  rw [Nat.mul_comm, Nat.div_add_mod] at hval
  have hfp : ∀ c ∈ (F64.padNat n (a % 10 ^ n)).toList, c.isDigit = true := fun c hc =>
    isDigit_of_mem_padNat hc
  have hip : ∀ c ∈ Nat.toDigits 10 (a / 10 ^ n), c.isDigit = true := fun c hc =>
    Nat.isDigit_of_mem_toDigits (by decide) (by decide) hc
  have hnum := parseNumber_point hip (List.ne_nil_of_length_pos Nat.length_toDigits_pos) hfp
  rw [hval, hlen] at hnum
  obtain ⟨hpos, hneg⟩ := parseF64_of_digit (toDigits_head _ _) hnum
  have htext : (toString (a / 10 ^ n) ++ ("." ++ F64.padNat n (a % 10 ^ n))).toList =
      Nat.toDigits 10 (a / 10 ^ n) ++ '.' :: (F64.padNat n (a % 10 ^ n)).toList := by
    rw [String.toList_append, String.toList_append, Nat.toString_eq_ofList_toDigits,
      String.toList_ofList]
    rfl
  unfold F64.decimal
  simp only [if_neg hn]
  cases neg with
  | true =>
    rw [if_pos rfl, if_pos rfl, String.toList_append, htext]
    exact hneg
  | false =>
    rw [if_neg Bool.false_ne_true, if_neg Bool.false_ne_true, htext]
    exact hpos

/-- **A number written to `n` places is read as the number it was rounded to.** -/
theorem parseF64_fmt {n : ℕ} (hn : n ≠ 0) (x : ℝ) :
    parseF64 (F64.fmt n x).toList = some (F64.roundHalfEven (x * 10 ^ n) / 10 ^ n : ℝ) := by
  have hpow : (0 : ℝ) < 10 ^ n := by positivity
  show parseF64 (F64.decimal n (decide (x < 0)) _).toList = _
  rw [parseF64_decimal hn, Nat.cast_natAbs]
  congr 1
  by_cases hx : x < 0
  · have h := F64.roundHalfEven_nonpos (mul_neg_of_neg_of_pos hx hpow)
    rw [if_pos (decide_eq_true hx), abs_of_nonpos h, Int.cast_neg, neg_div, neg_neg]
  · have h := F64.roundHalfEven_nonneg (mul_nonneg (not_lt.1 hx) hpow.le)
    rw [if_neg (by simpa using hx), abs_of_nonneg h]

/-- An integer is read as it is written. -/
theorem parseF64_int (k : ℤ) : parseF64 (toString k).toList = some (k : ℝ) := by
  have hnum (a : ℕ) : parseF64 (Nat.toDigits 10 a) = some (a : ℝ) ∧
      parseF64 ('-' :: Nat.toDigits 10 a) = some (-a : ℝ) := by
    have hhead := toDigits_head a []
    rw [List.append_nil] at hhead
    exact parseF64_of_digit hhead (parseNumber_nat a)
  cases k with
  | ofNat a =>
    have htext : (toString (Int.ofNat a)).toList = Nat.toDigits 10 a := by
      change (toString a).toList = _
      rw [Nat.toString_eq_ofList_toDigits, String.toList_ofList]
    rw [htext, (hnum a).1]
    rfl
  | negSucc a =>
    have htext : (toString (Int.negSucc a)).toList = '-' :: Nat.toDigits 10 (a + 1) := by
      rw [Int.toString_eq_repr, Int.repr, String.toList_append, Nat.repr]
      simp only [String.toList_ofList]
      rfl
    rw [htext, (hnum (a + 1)).2, Int.cast_negSucc]

end Str
