/-
  The SBS line (state.rs, sbs_datetime and the line of solve_cluster) and its parser
  (mb-proto sbs.rs).

  `sbsDatetime_gregorian`: the date and the time columns are those of the stamp in the proleptic
  Gregorian calendar. The two loops are read through the library's day count: what `yearOf` and
  `monthOf` take off the days is the start of the year and of the month.

  `parseLine_sbsRow`: the parser reads the line back. The line is its 22 columns with commas between
  them (`sbsRow_toList`), and no column has a comma or white space in it (`isToken_sbsCols`).
-/
import Mlatd.Lib.Calendar
import Mlatd.Output.Lines

namespace Mlatd

/-! ## Date and time -/

theorem isLeap_eq (y : ℤ) : isLeap y = decide (Calendar.IsLeap y) := by
  unfold isLeap
  rw [Bool.eq_iff_iff, decide_eq_true_iff]
  unfold Calendar.IsLeap
  simp

/-- The loop over the years stops in the year of the day, with fuel for every year before it. -/
theorem yearOf_spec {n : ℕ} {y r : ℤ} (h0 : 0 ≤ r) (hn : r < 365 * n) :
    Calendar.yearStart (yearOf n y r).1 + (yearOf n y r).2 = Calendar.yearStart y + r ∧
      0 ≤ (yearOf n y r).2 ∧
      (yearOf n y r).2 < Calendar.yearLength (yearOf n y r).1 := by
  induction n generalizing y r with
  | zero => omega
  | succ n ih =>
    have hlen : (if isLeap y then 366 else 365) = Calendar.yearLength y := by
      rw [isLeap_eq, Calendar.yearLength]
      simp only [decide_eq_true_iff]
    rw [yearOf]
    simp only [hlen]
    split
    · next hlt => exact ⟨rfl, h0, hlt⟩
    · next hge =>
      have hyear := Calendar.yearLength_ge y
      have h := ih (y := y + 1) (r := r - Calendar.yearLength y) (by omega) (by omega)
      rw [Calendar.yearStart_succ] at h
      exact ⟨by omega, h.2⟩

/-- The loop over the months stops in the month of the day. -/
theorem monthOf_spec {l : List ℤ} {m : ℕ} {r : ℤ} (h0 : 0 ≤ r) (hrem : r < l.sum) :
    ∃ i, ∃ hi : i < l.length, (monthOf l m r).1 = m + i ∧
      (l.take i).sum + (monthOf l m r).2 = r ∧ 0 ≤ (monthOf l m r).2 ∧
      (monthOf l m r).2 < l[i] := by
  induction l generalizing m r with
  | nil => simp at hrem; omega
  | cons len l ih =>
    rw [monthOf]
    split
    · next hlt => exact ⟨0, Nat.succ_pos _, rfl, by simp, h0, hlt⟩
    · next hge =>
      rw [List.sum_cons] at hrem
      obtain ⟨i, hi, h1, h2, h3⟩ := ih (m := m + 1) (r := r - len) (by omega) (by omega)
      refine ⟨i + 1, Nat.succ_lt_succ hi, by omega, ?_, h3⟩
      rw [List.take_succ_cons, List.sum_cons]
      omega

theorem months_eq (y : ℤ) :
    [31, if isLeap y then 29 else 28, 31, 30, 31, 30, 31, 31, 30, 31, 30, 31] =
      Calendar.monthLengths y := by
  rw [isLeap_eq, Calendar.monthLengths]
  simp only [decide_eq_true_iff]

/-- A finite stamp's seconds are its floor. -/
theorem asI64_eq {x : ℝ} (h0 : 0 ≤ x) (h1 : x < 2 ^ 63) : F64.asI64 x = ⌊x⌋ := by
  have htrunc : F64.trunc x = ⌊x⌋ := if_pos h0
  have hlo : 0 ≤ ⌊x⌋ := Int.floor_nonneg.2 h0
  have hhi : ⌊x⌋ < 2 ^ 63 := Int.floor_lt.2 (by exact_mod_cast h1)
  rw [F64.asI64, htrunc, F64.saturate]
  omega

/-- The date that the two loops find, `days` after 1970-01-01. -/
theorem exists_date {days : ℤ} (h0 : 0 ≤ days) :
    ∃ date : Calendar.Date, Calendar.dayNumber date = days ∧
      (∀ n : ℕ, days < 365 * n → yearOf n 1970 days = (date.year, date.dayOfYear)) ∧
      monthOf (Calendar.monthLengths date.year) 0 date.dayOfYear =
        (date.month - 1, (date.day : ℤ) - 1) := by
  have hepoch : Calendar.yearStart 1970 = 0 := rfl
  obtain ⟨hstart, hrem0, hrem⟩ := yearOf_spec (n := days.toNat / 365 + 1) (y := 1970) h0 (by omega)
  generalize yearOf (days.toNat / 365 + 1) 1970 days = r at *
  have hsum := hrem
  rw [← Calendar.sum_monthLengths] at hsum
  obtain ⟨i, hi, hmonth, hday, hd0, hd⟩ := monthOf_spec (m := 0) hrem0 hsum
  generalize hq : monthOf (Calendar.monthLengths r.1) 0 r.2 = q at *
  have hnat : ((q.2 + 1).toNat : ℤ) = q.2 + 1 := Int.toNat_of_nonneg (by omega)
  have hle : ((q.2 + 1).toNat : ℤ) ≤ (Calendar.monthLengths r.1)[i] := by omega
  have hdoy : Calendar.Date.dayOfYear
      ⟨r.1, i + 1, (q.2 + 1).toNat, by omega, hi, by omega, hle⟩ = r.2 := by
    simp only [Calendar.Date.dayOfYear, Nat.add_sub_cancel, hnat]
    omega
  refine ⟨⟨r.1, i + 1, (q.2 + 1).toNat, by omega, hi, by omega, hle⟩, ?_, ?_, ?_⟩
  · rw [Calendar.dayNumber, hdoy, hstart, hepoch, zero_add]
  · -- Any fuel that is enough finds the same year.
    intro n hn
    obtain ⟨hstart', hrem'⟩ := yearOf_spec (n := n) (y := 1970) h0 hn
    obtain ⟨hy, hd⟩ := Calendar.place_unique Calendar.yearStart_add_le Calendar.yearStart_add_le
      hrem' ⟨hrem0, hrem⟩ (hstart'.trans hstart.symm)
    rw [hdoy]
    exact Prod.ext hy hd
  · rw [hdoy]
    change monthOf (Calendar.monthLengths r.1) 0 r.2 = _
    rw [hq, hnat, Nat.add_sub_cancel, add_sub_cancel_right]
    exact Prod.ext (by omega) rfl

/-- The time of day that a second of the day is in. -/
theorem exists_time {s : ℤ} (h0 : 0 ≤ s) (h1 : s < 86400) :
    ∃ time : Calendar.TimeOfDay, Calendar.secondOfDay time = s ∧ s / 3600 = time.hour ∧
      s / 60 % 60 = time.minute ∧ s % 60 = time.second := by
  obtain ⟨n, rfl⟩ := Int.eq_ofNat_of_zero_le h0
  refine ⟨⟨n / 3600, n / 60 % 60, n % 60, by omega, Nat.mod_lt _ (by decide),
    Nat.mod_lt _ (by decide)⟩, ?_, rfl, rfl, rfl⟩
  simp only [Calendar.secondOfDay]
  omega

/-- The milliseconds that are cut off. -/
theorem asI64_millis (x : ℝ) :
    F64.asI64 ((x - F64.ofInt ⌊x⌋) * 1000.0) = ⌊1000 * (x - ⌊x⌋)⌋ ∧
      0 ≤ ⌊1000 * (x - ⌊x⌋)⌋ ∧ ⌊1000 * (x - ⌊x⌋)⌋ ≤ 999 := by
  have hfrac0 : 0 ≤ x - ⌊x⌋ := sub_nonneg.2 (Int.floor_le x)
  have hfrac1 : x - ⌊x⌋ < 1 := by linarith [Int.lt_floor_add_one x]
  have hlt : ⌊1000 * (x - ⌊x⌋)⌋ < 1000 := Int.floor_lt.2 (by push_cast; linarith)
  refine ⟨?_, Int.floor_nonneg.2 (by linarith), by omega⟩
  have hmul : (x - F64.ofInt ⌊x⌋) * 1000.0 = 1000 * (x - ⌊x⌋) := by
    have hthousand : (1000.0 : ℝ) = 1000 := by norm_num
    rw [hthousand, mul_comm]
    rfl
  rw [hmul]
  exact asI64_eq (by linarith) (by linarith)

/-- The column of a date. -/
def dateText (d : Calendar.Date) : String :=
  padInt 4 d.year ++ "/" ++ padInt 2 d.month ++ "/" ++ padInt 2 d.day

/-- The column of a time of day and its milliseconds. -/
def timeText (t : Calendar.TimeOfDay) (ms : ℤ) : String :=
  padInt 2 t.hour ++ ":" ++ padInt 2 t.minute ++ ":" ++ padInt 2 t.second ++ "." ++ padInt 3 ms

/-- **The columns are the Gregorian reading of the stamp**: they write a valid date and a time whose
    seconds are the stamp's, the only ones, and the milliseconds cut off. The loop over the years
    ends, whatever fuel it has beyond the years there are, and the one over the months ends at a
    month of the table. -/
theorem sbsDatetime_gregorian (stamp : ℝ) (h0 : 0 ≤ stamp) (h1 : stamp < 2 ^ 63) :
    ∃ (date : Calendar.Date) (time : Calendar.TimeOfDay) (ms : ℤ),
      sbsDatetime stamp = (dateText date, timeText time ms) ∧
      Calendar.unixSeconds date time = ⌊stamp⌋ ∧
      ms = ⌊1000 * (stamp - ⌊stamp⌋)⌋ ∧ 0 ≤ ms ∧ ms ≤ 999 ∧
      (∀ date' time', Calendar.unixSeconds date' time' = ⌊stamp⌋ → date' = date ∧ time' = time) ∧
      (∀ n : ℕ, ⌊stamp⌋ / 86400 < 365 * n →
        yearOf n 1970 (⌊stamp⌋ / 86400) = (date.year, date.dayOfYear)) ∧
      monthOf [31, if isLeap date.year then 29 else 28, 31, 30, 31, 30, 31, 31, 30, 31, 30, 31] 0
        date.dayOfYear = (date.month - 1, (date.day : ℤ) - 1) ∧
      date.month - 1 < 12 := by
  have hsecs : 0 ≤ ⌊stamp⌋ := Int.floor_nonneg.2 h0
  have hdays : 0 ≤ ⌊stamp⌋ / 86400 := Int.ediv_nonneg hsecs (by decide)
  obtain ⟨date, hnum, hyear, hmonth⟩ := exists_date hdays
  obtain ⟨time, htod, hhour, hminute, hsecond⟩ := exists_time (s := ⌊stamp⌋ % 86400)
    (Int.emod_nonneg _ (by decide)) (Int.emod_lt_of_pos _ (by decide))
  obtain ⟨hms, hms0, hms1⟩ := asI64_millis stamp
  have hunix : Calendar.unixSeconds date time = ⌊stamp⌋ := by
    rw [Calendar.unixSeconds, hnum, htod]
    omega
  rw [← months_eq] at hmonth
  refine ⟨date, time, ⌊1000 * (stamp - ⌊stamp⌋)⌋, ?_, hunix, rfl, hms0, hms1, ?_, hyear, hmonth, ?_⟩
  · have hfuel := hyear ((⌊stamp⌋ / 86400).toNat / 365 + 1) (by omega)
    have hm : ((date.month - 1 : ℕ) : ℤ) + 1 = date.month := by
      have := date.month_pos
      omega
    unfold sbsDatetime
    simp only [asI64_eq h0 h1, Int.tdiv_eq_ediv_of_nonneg hsecs, hfuel, hmonth, hms, hhour, hminute,
      hsecond, hm, sub_add_cancel, dateText, timeText]
  · intro date' time' h
    exact Calendar.unixSeconds_injective (h.trans hunix.symm)
  · have := date.month_le_twelve
    omega

/-- A leap day of a full century. -/
theorem sbsDatetime_gregorian_leap :
    sbsDatetime (951827696.5 : ℝ) = ("2000/02/29", "12:34:56.500") := by
  have hfloor : ⌊(951827696.5 : ℝ)⌋ = 951827696 := by
    rw [Int.floor_eq_iff]
    norm_num
  obtain ⟨date, time, ms, htext, -, hms, -, -, hunique, -⟩ :=
    sbsDatetime_gregorian 951827696.5 (by norm_num) (by norm_num)
  obtain ⟨rfl, rfl⟩ := hunique ⟨2000, 2, 29, by decide, by decide, by decide, by decide⟩
    ⟨12, 34, 56, by decide, by decide, by decide⟩ (by rw [hfloor]; decide)
  have hmillis : ms = 500 := by
    rw [hms, hfloor, Int.floor_eq_iff]
    norm_num
  rw [htext, hmillis]
  decide +kernel

/-! ## The line and its parser -/

section
variable {F : Type} [F64 F]

/-- A parsed MSG,3 line, as far as it is scored. -/
structure SbsPosition (F : Type) where
  icaoHex : String
  altFt : Option F
  lat : Option F
  lon : Option F

/-- `sbs::parse_line`; `toLowercase` is `str::to_lowercase`. -/
def parseLine (toLowercase : String → String) (line : String) : Option (SbsPosition F) :=
  let f := (Str.trimEnd line.toList).splitOn ','
  if f.head? ≠ some ['M', 'S', 'G'] ∨ f.length < 5 then none
  else
    f[4]?.bind fun s =>
      let icaoHex := toLowercase (String.ofList (Str.trim s))
      if icaoHex = "" then none
      else
        let num := fun i : ℕ => f[i]?.bind fun s => Str.parseF64 (Str.trim s)
        some { icaoHex := icaoHex, altFt := num 11, lat := num 14, lon := num 15 }

/-- The columns of a line. -/
def sbsCols (a : Attempt F) (pos : Geodetic F) : List (List Char) :=
  let d := (sbsDatetime a.stamp).1.toList
  let tm := (sbsDatetime a.stamp).2.toList
  [['M', 'S', 'G'], ['3'], ['1'], ['1'], a.icao.toHex.toUpper.toList, ['1'], d, tm, d, tm, [],
    (toString a.altFt).toList, [], [], (F64.fmt 5 pos.latDeg).toList,
    (F64.fmt 5 pos.lonDeg).toList, [], [], [], [], [], ['0']]

theorem sbsRow_toList (a : Attempt F) (pos : Geodetic F) :
    (sbsRow a pos).toList = [','].intercalate (sbsCols a pos) ++ ['\r', '\n'] := by
  have hhead : "MSG,3,1,1,".toList = ['M', 'S', 'G', ',', '3', ',', '1', ',', '1', ','] := rfl
  have hone : ",1,".toList = [',', '1', ','] := rfl
  have hsep : ",".toList = [','] := rfl
  have htwo : ",,".toList = [',', ','] := rfl
  have hthree : ",,,".toList = [',', ',', ','] := rfl
  have hend : ",,,,,,0\r\n".toList = [',', ',', ',', ',', ',', ',', '0', '\r', '\n'] := rfl
  unfold sbsRow sbsCols
  simp only [String.toList_append, hhead, hone, hsep, htwo, hthree, hend,
    List.intercalate_cons_cons, List.intercalate_singleton, List.append_assoc, List.cons_append,
    List.nil_append]

/-- Visible characters of ASCII, and no comma. -/
def IsToken (cs : List Char) : Prop := ∀ c ∈ cs, 0x20 < c.toNat ∧ c.toNat < 0x80 ∧ c ≠ ','

instance (cs : List Char) : Decidable (IsToken cs) := List.decidableBAll _ cs

theorem IsToken.append {s t : String} (hs : IsToken s.toList) (ht : IsToken t.toList) :
    IsToken (s ++ t).toList := by
  intro c hc
  rw [String.toList_append, List.mem_append] at hc
  exact hc.elim (hs c) (ht c)

theorem IsToken.trim {cs : List Char} (h : IsToken cs) : Str.trim cs = cs :=
  Str.trim_eq_self fun c hc => Str.isWhitespace_eq_false (h c hc).1 (h c hc).2.1

theorem isToken_of_number {cs : List Char}
    (h : ∀ c ∈ cs, c.isDigit = true ∨ c ∈ ['-', '.', 'N', 'a', 'i', 'n', 'f']) : IsToken cs := by
  intro c hc
  rcases h c hc with hd | hm
  · have hrange : 48 ≤ c.toNat ∧ c.toNat ≤ 57 := Char.isDigit_iff_toNat.1 hd
    refine ⟨by omega, by omega, ?_⟩
    rintro rfl
    exact absurd hd (by decide)
  · have hall : IsToken ['-', '.', 'N', 'a', 'i', 'n', 'f'] := by decide
    exact hall c hm

theorem isToken_padInt (w : ℕ) (k : ℤ) : IsToken (padInt w k).toList := by
  have hnat (v n : ℕ) : IsToken (F64.padNat v n).toList :=
    isToken_of_number fun c hc => Or.inl (Str.isDigit_of_mem_padNat hc)
  unfold padInt
  split
  · exact IsToken.append (by decide) (hnat _ _)
  · exact hnat _ _

theorem isToken_sbsDatetime (unix : F) :
    IsToken (sbsDatetime unix).1.toList ∧ IsToken (sbsDatetime unix).2.toList := by
  have hslash : IsToken "/".toList := by decide
  have hcolon : IsToken ":".toList := by decide
  have hpoint : IsToken ".".toList := by decide
  unfold sbsDatetime
  constructor
  · exact ((((isToken_padInt _ _).append hslash).append (isToken_padInt _ _)).append hslash).append
      (isToken_padInt _ _)
  · exact ((((((isToken_padInt _ _).append hcolon).append (isToken_padInt _ _)).append
      hcolon).append (isToken_padInt _ _)).append hpoint).append (isToken_padInt _ _)

/-! ### The address in upper case -/

theorem mem_toHex {i : Icao} {c : Char} (h : c ∈ i.toHex.toList) : ∃ n < 16, c = hexDigit n := by
  unfold Icao.toHex at h
  rw [String.toList_ofList] at h
  obtain ⟨k, -, rfl⟩ := List.mem_map.1 h
  exact ⟨_, Nat.mod_lt _ (by decide), rfl⟩

theorem toUpper_toList (s : String) : s.toUpper.toList = s.toList.map Char.toUpper := by
  rw [String.toUpper, String.toList_map]

theorem toUpper_hexDigit : ∀ n < 16, IsToken [(hexDigit n).toUpper] ∧
    asciiLower (hexDigit n).toUpper = hexDigit n := by
  decide

theorem isToken_toUpper_toHex (i : Icao) : IsToken i.toHex.toUpper.toList := by
  intro c hc
  rw [toUpper_toList] at hc
  obtain ⟨d, hd, rfl⟩ := List.mem_map.1 hc
  obtain ⟨n, hn, rfl⟩ := mem_toHex hd
  exact (toUpper_hexDigit n hn).1 _ List.mem_cons_self

/-- What `str::to_lowercase` does with ASCII. -/
def LowersAscii (toLowercase : String → String) : Prop :=
  ∀ s : String, (∀ c ∈ s.toList, c.toNat < 0x80) →
    toLowercase s = String.ofList (s.toList.map asciiLower)

/-- The address is lowered to what it was raised from. -/
theorem LowersAscii.toUpper_toHex {toLowercase : String → String} (h : LowersAscii toLowercase)
    (i : Icao) : toLowercase i.toHex.toUpper = i.toHex := by
  rw [h _ fun c hc => (isToken_toUpper_toHex i c hc).2.1, toUpper_toList, List.map_map]
  have hmap : i.toHex.toList.map (asciiLower ∘ Char.toUpper) = i.toHex.toList := by
    refine (List.map_congr_left fun c hc => ?_).trans (List.map_id _)
    obtain ⟨n, hn, rfl⟩ := mem_toHex hc
    exact (toUpper_hexDigit n hn).2
  rw [hmap, String.ofList_toList]

/-! ### Reading the line back -/

theorem isToken_sbsCols [PlainFmt F] (a : Attempt F) (pos : Geodetic F) :
    ∀ col ∈ sbsCols a pos, IsToken col := by
  have hfmt (x : F) : IsToken (F64.fmt 5 x).toList := isToken_of_number (PlainFmt.mem_fmt 5 x)
  have hnil : IsToken [] := fun c hc => by cases hc
  obtain ⟨hd, htm⟩ := isToken_sbsDatetime a.stamp
  simp only [sbsCols, List.forall_mem_cons]
  exact ⟨by decide, by decide, by decide, by decide, isToken_toUpper_toHex _, by decide, hd, htm, hd,
    htm, hnil, isToken_of_number (mem_int _), hnil, hnil, hfmt _, hfmt _, hnil, hnil, hnil, hnil,
    hnil, by decide, fun c hc => by cases hc⟩

/-- The parser's columns are those of the line. -/
theorem splitOn_sbsRow [PlainFmt F] (a : Attempt F) (pos : Geodetic F) :
    (Str.trimEnd (sbsRow a pos).toList).splitOn ',' = sbsCols a pos := by
  have hcols := isToken_sbsCols a pos
  -- The last column is not white space, so what is cut off is the line's end.
  have hlast : ∃ front, [','].intercalate (sbsCols a pos) = front ++ ['0'] := by
    simp only [sbsCols, List.intercalate_cons_cons, List.intercalate_singleton,
      ← List.append_assoc]
    exact ⟨_, rfl⟩
  obtain ⟨front, hfront⟩ := hlast
  have hend : ∀ c ∈ ['\r', '\n'], Str.isWhitespace c = true := by simp [Str.isWhitespace]
  rw [sbsRow_toList, hfront, Str.trimEnd_append (by decide) hend, ← hfront,
    List.splitOn_intercalate _ (fun col hcol hc => (hcols col hcol ',' hc).2.2 rfl) (by
      unfold sbsCols
      exact List.cons_ne_nil _ _)]

end

/-- **The parser reads the line back**: the address in lower case, the altitude, and the position as
    it was written, to five decimals. -/
theorem parseLine_sbsRow {toLowercase : String → String} (hlower : LowersAscii toLowercase)
    (a : Attempt ℝ) (pos : Geodetic ℝ) :
    parseLine toLowercase (sbsRow a pos) =
      some { icaoHex := a.icao.toHex
             altFt := some (a.altFt : ℝ)
             lat := some (F64.roundHalfEven (pos.latDeg * 10 ^ 5) / 10 ^ 5 : ℝ)
             lon := some (F64.roundHalfEven (pos.lonDeg * 10 ^ 5) / 10 ^ 5 : ℝ) } := by
  have hicao : (sbsCols a pos)[4]? = some a.icao.toHex.toUpper.toList := rfl
  have halt : (sbsCols a pos)[11]? = some (toString a.altFt).toList := rfl
  have hlat : (sbsCols a pos)[14]? = some (F64.fmt 5 pos.latDeg).toList := rfl
  have hlon : (sbsCols a pos)[15]? = some (F64.fmt 5 pos.lonDeg).toList := rfl
  have hread (x : ℝ) : (Str.parseF64 (F64.fmt 5 x).toList : Option ℝ) =
      some (F64.roundHalfEven (x * 10 ^ 5) / 10 ^ 5 : ℝ) := Str.parseF64_fmt (by decide) x
  have htoken (x : ℝ) : IsToken (F64.fmt 5 x).toList := isToken_of_number (PlainFmt.mem_fmt 5 x)
  have hne : a.icao.toHex ≠ "" := by
    unfold Icao.toHex
    rw [Ne, String.ofList_eq_empty_iff]
    exact List.cons_ne_nil _ _
  have hhead : ¬ ((sbsCols a pos).head? ≠ some ['M', 'S', 'G'] ∨ (sbsCols a pos).length < 5) := by
    rintro (h | h)
    · exact h rfl
    · have hlen : (sbsCols a pos).length = 22 := rfl
      omega
  unfold parseLine
  simp only [splitOn_sbsRow, if_neg hhead, hicao, halt, hlat, hlon, Option.bind_some,
    (isToken_toUpper_toHex _).trim, String.ofList_toList, hlower.toUpper_toHex, if_neg hne,
    (isToken_of_number (mem_int a.altFt)).trim, (htoken _).trim, hread, Str.parseF64_int]

/-- Rounding leaves a whole number as it is. -/
theorem roundHalfEven_intCast (n : ℤ) : F64.roundHalfEven (n : ℝ) = n := by
  unfold F64.roundHalfEven
  simp

noncomputable def airliner : Attempt ℝ where
  icao := ⟨0x3C6444⟩
  isDf17 := true
  members := []
  used := []
  benched := []
  stamp := 1788177600
  nowScaled := 0
  altFt := 35000
  altM := 10668
  track := Track.default
  gate := none

theorem parseLine_sbsRow_airliner :
    parseLine (fun s => String.ofList (s.toList.map asciiLower))
        (sbsRow airliner ⟨47.21, -1.55, 10668⟩) =
      some { icaoHex := "3c6444", altFt := some (35000 : ℝ), lat := some 47.21,
             lon := some (-1.55) } := by
  rw [parseLine_sbsRow (fun _ _ => rfl)]
  have hhex : airliner.icao.toHex = "3c6444" := by decide +kernel
  have halt : (airliner.altFt : ℝ) = 35000 := by norm_num [airliner]
  have hlat : (47.21 : ℝ) * 10 ^ 5 = ((4721000 : ℤ) : ℝ) := by norm_num
  have hlon : (-1.55 : ℝ) * 10 ^ 5 = ((-155000 : ℤ) : ℝ) := by norm_num
  rw [hhex, halt, hlat, hlon, roundHalfEven_intCast, roundHalfEven_intCast]
  norm_num

end Mlatd
