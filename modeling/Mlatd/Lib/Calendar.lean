/-
  The proleptic Gregorian calendar.

  A `Date` is a valid one: it cannot be built with a month past December or a day past its month.
  `dayNumber` counts days from 1970-01-01; the days before a year are in closed form
  (`yearStart`), which the year lengths add up to (`yearStart_succ`). A date and a time of day are
  determined by their seconds (`unixSeconds_injective`).
-/
import Mathlib.Algebra.BigOperators.Group.List.Basic
import Mathlib.Algebra.Order.BigOperators.Group.List
import Mathlib.Algebra.Order.Ring.Int
import Mathlib.Tactic.Linarith

namespace Calendar

/-! ## Years and months -/

/-- Every fourth year, but of the full centuries only every fourth. -/
def IsLeap (y : ℤ) : Prop := (y % 4 = 0 ∧ y % 100 ≠ 0) ∨ y % 400 = 0

instance : DecidablePred IsLeap := fun _ => inferInstanceAs (Decidable (_ ∨ _))

def yearLength (y : ℤ) : ℤ := if IsLeap y then 366 else 365

/-- The months of a year. -/
def monthLengths (y : ℤ) : List ℤ :=
  [31, if IsLeap y then 29 else 28, 31, 30, 31, 30, 31, 31, 30, 31, 30, 31]

/-- The leap days of the years 1 to `y - 1`. -/
def leapDays (y : ℤ) : ℤ := (y - 1) / 4 - (y - 1) / 100 + (y - 1) / 400

/-- The day number of the first of January. -/
def yearStart (y : ℤ) : ℤ := 365 * (y - 1970) + (leapDays y - leapDays 1970)

theorem yearLength_ge (y : ℤ) : 365 ≤ yearLength y := by
  unfold yearLength
  split <;> omega

theorem sum_monthLengths (y : ℤ) : (monthLengths y).sum = yearLength y := by
  unfold monthLengths yearLength
  split <;> rfl

theorem monthLengths_pos (y : ℤ) : ∀ n ∈ monthLengths y, 0 < n := by
  unfold monthLengths
  split <;> decide

/-- The next year starts a year's length later. -/
theorem yearStart_succ (y : ℤ) : yearStart (y + 1) = yearStart y + yearLength y := by
  have hnext : yearStart (y + 1) = 365 * (y - 1969) + (y / 4 - y / 100 + y / 400 - 477) := by
    unfold yearStart leapDays
    omega
  have hthis : yearStart y =
      365 * (y - 1970) + ((y - 1) / 4 - (y - 1) / 100 + (y - 1) / 400 - 477) := by
    unfold yearStart leapDays
    omega
  by_cases h : IsLeap y
  · rw [hnext, hthis, yearLength, if_pos h]
    unfold IsLeap at h
    omega
  · rw [hnext, hthis, yearLength, if_neg h]
    unfold IsLeap at h
    omega

theorem yearStart_add_le {y z : ℤ} (h : y < z) : yearStart y + yearLength y ≤ yearStart z := by
  have hz : y + 1 ≤ z := h
  induction z, hz using Int.leInduction with
  | base => rw [yearStart_succ]
  | succ z hz ih =>
    have h1 := ih (by omega)
    have h2 := yearLength_ge z
    rw [yearStart_succ]
    omega

/-- A month starts after the one before it ends. -/
theorem sum_take_add_le {l : List ℤ} (hl : ∀ n ∈ l, 0 < n) {i j : ℕ} (hij : i < j)
    (hj : j ≤ l.length) : (l.take i).sum + l[i] ≤ (l.take j).sum := by
  induction j, hij using Nat.le_induction with
  | base => rw [List.sum_take_succ _ _ hj]
  | succ j hij ih =>
    have h1 := ih (by omega)
    have h2 := hl l[j] (List.getElem_mem _)
    rw [List.sum_take_succ _ _ (by omega)]
    omega

/-- A place in consecutive intervals: the interval and the place in it are determined. -/
theorem place_unique {ι : Type*} [LinearOrder ι] {f : ι → ℤ} {i j : ι} {m n r s : ℤ}
    (hi : i < j → f i + m ≤ f j) (hj : j < i → f j + n ≤ f i)
    (hr : 0 ≤ r ∧ r < m) (hs : 0 ≤ s ∧ s < n) (h : f i + r = f j + s) :
    i = j ∧ r = s := by
  rcases lt_trichotomy i j with hlt | rfl | hlt
  · have := hi hlt
    omega
  · exact ⟨rfl, by omega⟩
  · have := hj hlt
    omega

/-! ## Dates -/

structure Date where
  year : ℤ
  month : ℕ
  day : ℕ
  month_pos : 1 ≤ month
  month_le : month - 1 < (monthLengths year).length
  day_pos : 1 ≤ day
  day_le : (day : ℤ) ≤ (monthLengths year)[month - 1]

structure TimeOfDay where
  hour : ℕ
  minute : ℕ
  second : ℕ
  hour_lt : hour < 24
  minute_lt : minute < 60
  second_lt : second < 60

/-- The day within the year, from 0. -/
def Date.dayOfYear (d : Date) : ℤ :=
  ((monthLengths d.year).take (d.month - 1)).sum + (d.day - 1)

/-- Days since 1970-01-01. -/
def dayNumber (d : Date) : ℤ := yearStart d.year + d.dayOfYear

def secondOfDay (t : TimeOfDay) : ℕ := 3600 * t.hour + 60 * t.minute + t.second

/-- Seconds since the start of 1970-01-01. -/
def unixSeconds (d : Date) (t : TimeOfDay) : ℤ := 86400 * dayNumber d + secondOfDay t

theorem Date.month_le_twelve (d : Date) : d.month ≤ 12 := by
  have h := d.month_le
  have hlen : (monthLengths d.year).length = 12 := rfl
  omega

theorem Date.dayOfYear_lt (d : Date) : 0 ≤ d.dayOfYear ∧ d.dayOfYear < yearLength d.year := by
  have hpos := monthLengths_pos d.year
  have h0 : 0 ≤ ((monthLengths d.year).take (d.month - 1)).sum :=
    List.sum_nonneg fun n hn => le_of_lt (hpos n (List.mem_of_mem_take hn))
  have h1 := sum_take_add_le hpos d.month_le le_rfl
  have h2 := d.day_pos
  have h3 := d.day_le
  rw [List.take_length, sum_monthLengths] at h1
  unfold Date.dayOfYear
  omega

/-- A valid date is determined by its day number. -/
theorem dayNumber_injective {d e : Date} (h : dayNumber d = dayNumber e) : d = e := by
  obtain ⟨hyear, hday⟩ := place_unique yearStart_add_le yearStart_add_le d.dayOfYear_lt
    e.dayOfYear_lt h
  have hd := d.day_pos
  have he := e.day_pos
  obtain ⟨y, m, k, hm, hm', hk, hk'⟩ := d
  obtain ⟨z, n, l, hn, hn', hl, hl'⟩ := e
  obtain rfl : y = z := hyear
  have hpos := monthLengths_pos y
  obtain ⟨hmonth, hk⟩ := place_unique (f := fun i => ((monthLengths y).take i).sum)
    (fun hlt => sum_take_add_le hpos hlt (le_of_lt hn'))
    (fun hlt => sum_take_add_le hpos hlt (le_of_lt hm'))
    (r := (k : ℤ) - 1) (s := (l : ℤ) - 1) (m := (monthLengths y)[m - 1])
    (n := (monthLengths y)[n - 1]) (by omega) (by omega) hday
  obtain rfl : m = n := by omega
  obtain rfl : k = l := by omega
  rfl

theorem secondOfDay_lt (t : TimeOfDay) : secondOfDay t < 86400 := by
  have h1 := t.hour_lt
  have h2 := t.minute_lt
  have h3 := t.second_lt
  unfold secondOfDay
  omega

/-- **A date and a time are determined by their seconds.** -/
theorem unixSeconds_injective {d e : Date} {t u : TimeOfDay}
    (h : unixSeconds d t = unixSeconds e u) : d = e ∧ t = u := by
  have ht := secondOfDay_lt t
  have hu := secondOfDay_lt u
  unfold unixSeconds at h
  refine ⟨dayNumber_injective (by omega), ?_⟩
  have hsec : secondOfDay t = secondOfDay u := by omega
  unfold secondOfDay at hsec
  have h1 := t.minute_lt
  have h2 := t.second_lt
  have h3 := u.minute_lt
  have h4 := u.second_lt
  cases t
  cases u
  congr 1 <;> simp only at * <;> omega

end Calendar
