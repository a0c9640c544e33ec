/-
  The lines with a client's text in them: rows of the results file, denials, stop lines.

  The users of a row stand between quotes as they are. A row is one record of 13 columns exactly
  when no user has a newline and the quotes of each come in pairs (`isRecord_csvRow_iff`). A
  denial strips quotes and backslashes, and breaks on control characters
  (`Denial.isObjectLine_iff`). A stop line writes six bytes of the client's frame as they are,
  where the names of a start line have to be hexadecimal (`isObjectLine_stopSending_iff`,
  `staysInside_of_isIcaoText`).
-/
import Mlatd.Lib.Str
import Mlatd.Lib.TextLine
import Mlatd.Tracks.Recipients
import Mlatd.Traffic
import Mlatd.Server

namespace Mlatd

variable {F : Type} [F64 F]

/-! ## Numbers and addresses -/

/-- A formatted number has digits, a sign and a point, or is one of the words NaN and inf. -/
class PlainFmt (F : Type) [F64 F] : Prop where
  mem_fmt : ∀ n (x : F), ∀ c ∈ (F64.fmt n x).toList,
    c.isDigit = true ∨ c ∈ ['-', '.', 'N', 'a', 'i', 'n', 'f']

theorem isPlain_of_number {cs : List Char}
    (h : ∀ c ∈ cs, c.isDigit = true ∨ c ∈ ['-', '.', 'N', 'a', 'i', 'n', 'f']) :
    Csv.IsPlain cs := by
  intro c hc
  refine ⟨?_, ?_, ?_, ?_⟩ <;> rintro rfl <;> exact absurd (h _ hc) (by decide)

theorem isDigit_of_mem_nat {n : ℕ} {c : Char} (h : c ∈ (toString n).toList) :
    c.isDigit = true := by
  rw [Nat.toString_eq_repr, Nat.repr, String.toList_ofList] at h
  exact Nat.isDigit_of_mem_toDigits (by decide) (by decide) h

theorem isPlain_fmt [PlainFmt F] (n : ℕ) (x : F) : Csv.IsPlain (F64.fmt n x).toList :=
  isPlain_of_number (PlainFmt.mem_fmt n x)

theorem isPlain_nat (n : ℕ) : Csv.IsPlain (toString n).toList :=
  isPlain_of_number fun _ hc => Or.inl (isDigit_of_mem_nat hc)

theorem mem_int (n : ℤ) :
    ∀ c ∈ (toString n).toList, c.isDigit = true ∨ c ∈ ['-', '.', 'N', 'a', 'i', 'n', 'f'] := by
  intro c hc
  cases n with
  | ofNat n => exact Or.inl (isDigit_of_mem_nat hc)
  | negSucc n =>
    rw [Int.toString_eq_repr, Int.repr, String.toList_append, List.mem_append] at hc
    rcases hc with hc | hc
    · rw [show c = '-' from List.mem_singleton.1 hc]
      decide
    · exact Or.inl (isDigit_of_mem_nat hc)

theorem isPlain_int (n : ℤ) : Csv.IsPlain (toString n).toList :=
  isPlain_of_number (mem_int n)

theorem isPlain_hexDigit {n : ℕ} (h : n < 16) : Csv.IsPlain [hexDigit n] := by
  intro c hc
  rw [List.mem_singleton] at hc
  subst hc
  revert n
  decide

theorem isPlain_toHex (i : Icao) : Csv.IsPlain i.toHex.toList := by
  intro c hc
  unfold Icao.toHex at hc
  rw [String.toList_ofList] at hc
  obtain ⟨k, -, rfl⟩ := List.mem_map.1 hc
  exact isPlain_hexDigit (Nat.mod_lt _ (by decide)) _ List.mem_cons_self

theorem F64.mem_decimal (n : ℕ) (neg : Bool) (a : ℕ) :
    ∀ c ∈ (F64.decimal n neg a).toList, c.isDigit = true ∨ c ∈ ['-', '.', 'N', 'a', 'i', 'n', 'f'] := by
  intro c hc
  have hfrac : c ∈ (if n = 0 then "" else "." ++ F64.padNat n (a % 10 ^ n)).toList →
      c.isDigit = true ∨ c ∈ ['-', '.', 'N', 'a', 'i', 'n', 'f'] := by
    intro h
    split at h
    · cases h
    · rw [String.toList_append, List.mem_append] at h
      rcases h with h | h
      · rw [show c = '.' from List.mem_singleton.1 h]
        decide
      · exact Or.inl (Str.isDigit_of_mem_padNat h)
  have habs : c ∈ (toString (a / 10 ^ n)).toList ++
      (if n = 0 then "" else "." ++ F64.padNat n (a % 10 ^ n)).toList →
      c.isDigit = true ∨ c ∈ ['-', '.', 'N', 'a', 'i', 'n', 'f'] := by
    intro h
    rcases List.mem_append.1 h with h | h
    · exact Or.inl (isDigit_of_mem_nat h)
    · exact hfrac h
  unfold F64.decimal at hc
  simp only at hc
  split at hc
  · rw [String.toList_append, String.toList_append, List.mem_append] at hc
    rcases hc with hc | hc
    · rw [show c = '-' from List.mem_singleton.1 hc]
      decide
    · exact habs hc
  · rw [String.toList_append] at hc
    exact habs hc

instance plainFmt_real : PlainFmt ℝ := ⟨fun _ _ => F64.mem_decimal _ _ _⟩

instance plainFmt_rat : PlainFmt ℚ := ⟨fun _ _ => F64.mem_decimal _ _ _⟩

/-! ## Rows -/

/-- A user that a quoted field may have as it is. -/
def FitsField (user : String) : Prop := '\n' ∉ user.toList ∧ Csv.paired user.toList = true

/-- The columns before the users. -/
def csvCols (a : Attempt F) (pos : Geodetic F) (errM : F) : List (List Char) :=
  [(F64.fmt 3 a.stamp).toList, a.icao.toHex.toList, [], [], (F64.fmt 5 pos.latDeg).toList,
    (F64.fmt 5 pos.lonDeg).toList, (toString a.altFt).toList, (F64.fmt 1 errM).toList,
    (toString a.used.length).toList, (toString a.used.length).toList]

theorem isPlain_csvCols [PlainFmt F] (a : Attempt F) (pos : Geodetic F) (errM : F) :
    ∀ col ∈ csvCols a pos errM, Csv.IsPlain col := by
  have hnil : Csv.IsPlain [] := fun c hc => by cases hc
  simp only [csvCols, List.forall_mem_cons]
  exact ⟨isPlain_fmt _ _, isPlain_toHex _, hnil, hnil, isPlain_fmt _ _, isPlain_fmt _ _,
    isPlain_int _, isPlain_fmt _ _, isPlain_nat _, isPlain_nat _, fun _ h => by cases h⟩

/-- The users as they stand in a row. -/
def csvUsers (a : Attempt F) : List Char := [','].intercalate (a.used.map fun u => u.user.toList)

theorem csvRow_toList (a : Attempt F) (pos : Geodetic F) (errM : F) :
    (csvRow a pos errM).toList =
      ((csvCols a pos errM).flatMap (· ++ [',']) ++
        '"' :: (csvUsers a ++ '"' :: ',' :: ((toString (a.used.length - 4)).toList ++ [',']))) ++
          ['\n'] := by
  have hsep : ",".toList = [','] := rfl
  have hthree : ",,,".toList = [',', ',', ','] := rfl
  have hopen : ",\"".toList = [',', '"'] := rfl
  have hclose : "\",".toList = ['"', ','] := rfl
  have hend : ",\n".toList = [',', '\n'] := rfl
  unfold csvRow csvCols csvUsers
  simp only [String.toList_append, String.toList_intercalate, List.map_map, hsep, hthree, hopen,
    hclose, hend, List.flatMap_cons, List.flatMap_nil, List.append_assoc, List.cons_append,
    List.nil_append, List.append_nil]
  rfl

theorem isRecord_csvRow_iff [PlainFmt F] (a : Attempt F) (pos : Geodetic F) (errM : F) :
    Csv.IsRecord 13 (csvRow a pos errM) ↔ ∀ u ∈ a.used, FitsField u.user := by
  have hdof := isPlain_nat (a.used.length - 4)
  have hlast : ∀ dof, Csv.IsPlain dof → Csv.fields .start (dof ++ [',']) = some 2 ∧
      '"' ∉ dof ++ [','] ∧ '\n' ∉ dof ++ [','] := by
    intro dof h
    refine ⟨?_, ?_, ?_⟩
    · rw [Csv.fields_plain (Or.inl rfl) h]
      rfl
    · simpa using fun hm => (h _ hm).2.1 rfl
    · simpa using fun hm => (h _ hm).2.2.1 rfl
  obtain ⟨hk, hq, hn⟩ := hlast _ hdof
  have hrow := Csv.isRecord_iff (isPlain_csvCols a pos errM) hq hn hk (csvRow_toList a pos errM)
  change _ ↔ _ at hrow
  refine hrow.trans ?_
  unfold csvUsers FitsField
  rw [Csv.mem_intercalate (by decide), Csv.paired_intercalate]
  simp only [List.mem_map, exists_exists_and_eq_and, forall_exists_index, and_imp,
    forall_apply_eq_imp_iff₂, not_exists, not_and]
  exact ⟨fun h u hu => ⟨h.1 u hu, h.2 u hu⟩,
    fun h => ⟨fun u hu => (h u hu).1, fun u hu => (h u hu).2⟩⟩

/-! ## Denials -/

/-- A text in the middle of a JSON object, in a string of an array of it. -/
theorem isObjectLine_iff_of_append {line : String} {pre cs post : List Char}
    (hline : line.toList = pre ++ cs ++ post ++ ['\n'])
    (hpre : JsonText.run (.value, []) pre = some (.str false, [.arr, .obj]))
    (hbrace : pre.head? = some '\x7b') (hn : '\n' ∉ pre ∧ '\n' ∉ post) :
    JsonText.IsObjectLine line ↔ '\n' ∉ cs ∧
      JsonText.complete ((JsonText.run (.str false, [.arr, .obj]) cs).bind (JsonText.run · post)) =
        true := by
  have hhead : (pre ++ cs ++ post).head? = some '\x7b' := by
    rw [List.append_assoc, List.head?_append, hbrace]
    rfl
  have hbody : '\n' ∈ pre ++ cs ++ post ↔ '\n' ∈ cs := by simp [hn.1, hn.2]
  unfold JsonText.IsObjectLine JsonText.isObject
  rw [TextLine.content_eq hline]
  by_cases hc : '\n' ∈ cs
  · rw [if_pos (hbody.2 hc)]
    simp [hc]
  · rw [if_neg (mt hbody.1 hc), Option.any_some, hhead, JsonText.run_append, JsonText.run_append,
      hpre, Option.bind_some]
    simp [hc]

theorem Denial.isObjectLine_iff (d : Denial) :
    JsonText.IsObjectLine d.render ↔ ∀ user, d = .connected user → ∀ c ∈ user.toList, ' ' ≤ c := by
  cases d with
  | noCompression => exact iff_of_true (by decide +kernel) fun _ h => by cases h
  | missingPosition => exact iff_of_true (by decide +kernel) fun _ h => by cases h
  | invalidPosition => exact iff_of_true (by decide +kernel) fun _ h => by cases h
  | connected user =>
    let kept := user.toList.filter fun c => c != '"' && c != '\\'
    have hline : (Denial.connected user).render.toList =
        "\x7b\"deny\":[\"User ".toList ++ kept ++
          " is already connected\"],\"reconnect_in\":160\x7d".toList ++ ['\n'] := by
      unfold Denial.render
      simp only [String.toList_append, String.toList_ofList, List.append_assoc]
      rfl
    have hkept : (∀ c ∈ kept, ' ' ≤ c) ↔ ∀ c ∈ user.toList, ' ' ≤ c := by
      constructor
      · intro h c hc
        by_cases hq : c = '"'
        · rw [hq]
          decide
        by_cases hb : c = '\\'
        · rw [hb]
          decide
        · exact h c (List.mem_filter.2 ⟨hc, by simp [hq, hb]⟩)
      · exact fun h c hc => h c (List.mem_filter.1 hc).1
    rw [isObjectLine_iff_of_append hline (by decide +kernel) (by decide) (by decide),
      JsonText.run_str (by simp [kept]) (by simp [kept])]
    simp only [List.all_eq_true, decide_eq_true_eq]
    simp only [Denial.connected.injEq, forall_eq']
    by_cases h : ∀ c ∈ kept, ' ' ≤ c
    · rw [if_pos h]
      refine iff_of_true ⟨fun hn => ?_, by decide +kernel⟩ (hkept.1 h)
      exact absurd (h _ hn) (by decide)
    · rw [if_neg h]
      exact iff_of_false (fun h' => by cases h'.2) (mt hkept.2 h)

/-! ## Stop lines -/

/-- Read in a string of an array, the text ends in a string of that array. -/
def StaysInside (icao : String) : Prop :=
  '\n' ∉ icao.toList ∧
    JsonText.run (.str false, [.arr, .obj]) icao.toList = some (.str false, [.arr, .obj])

omit [F64 F] in
theorem isObjectLine_stopSending_iff (text : Text F) (icao : String) :
    JsonText.IsObjectLine ((ClientLine.stopSending icao).render text) ↔ StaysInside icao := by
  have hline : ((ClientLine.stopSending icao).render text).toList =
      "\x7b\"stop_sending\":[\"".toList ++ icao.toList ++ ['"', ']', '\x7d'] ++ ['\n'] := by
    unfold ClientLine.render
    simp only [String.toList_append, List.append_assoc]
    rfl
  rw [isObjectLine_iff_of_append hline (by decide +kernel) (by decide) (by decide)]
  unfold StaysInside
  cases JsonText.run (.str false, [.arr, .obj]) icao.toList with
  | none => simp [JsonText.complete]
  | some p => rw [Option.bind_some, JsonText.complete_close_iff, Option.some.injEq]

theorem staysInside_of_isIcaoText {icao : String} (h : isIcaoText icao = true) :
    StaysInside icao := by
  unfold isIcaoText at h
  rw [Bool.and_eq_true, List.all_eq_true] at h
  have hex : ∀ c ∈ icao.toList, c ≠ '"' ∧ c ≠ '\\' ∧ c ≠ '\n' ∧ ' ' ≤ c := by
    intro c hc
    have hd := h.2 c hc
    refine ⟨?_, ?_, ?_, ?_⟩
    · rintro rfl
      exact absurd hd (by decide)
    · rintro rfl
      exact absurd hd (by decide)
    · rintro rfl
      exact absurd hd (by decide)
    · simp only [isHexDigit, Bool.or_eq_true, Bool.and_eq_true, decide_eq_true_eq] at hd
      rcases hd with (hd | hd) | hd
      · exact le_trans (by decide) hd.1
      · exact le_trans (by decide) hd.1
      · exact le_trans (by decide) hd.1
  refine ⟨fun hn => (hex _ hn).2.2.1 rfl, ?_⟩
  rw [JsonText.run_str (fun hq => (hex _ hq).1 rfl) (fun hb => (hex _ hb).2.1 rfl),
    if_pos (List.all_eq_true.2 fun c hc => decide_eq_true (hex c hc).2.2.2)]

/-- The aircraft of the sync frame in a client's line, as it is written back. -/
def stopText (v : Json F) : Option String := (((v.index "sync").index "em").asStr).bind adsbIcao

namespace Traffic

theorem syncPair_em {v : Json F} {p : F × F × String × String} (h : syncPair v = some p) :
    (v.index "em").asStr = some p.2.2.1 := by
  unfold syncPair at h
  split at h
  · next hem _ =>
    split at h
    · cases h
      exact hem
    · cases h
  · cases h

theorem takeOffers_line {text : Text F} {q : Queue} {t : Traffic F} {v : Json F} {now : F}
    {sent : Sent} (h : sent ∈ (t.takeOffers text q v now).2) (icao : String) :
    sent.line ≠ .stopSending icao := by
  unfold takeOffers at h
  simp only at h
  split at h
  · cases h
  · rw [List.mem_singleton.1 h]
    exact fun hl => by cases hl

theorem forwardSync_stops {rx : RxRef} {q : Option Queue} {t : Traffic F} {now : F}
    {p : F × F × String × String} {sent : Sent} (h : sent ∈ (t.forwardSync rx q now p).2.1) :
    ∃ icao, adsbIcao p.2.2.1 = some icao ∧ sent.line = .stopSending icao := by
  obtain ⟨et, ot, em, om⟩ := p
  unfold forwardSync at h
  simp only at h
  cases hi : adsbIcao em with
  | none =>
    rw [hi] at h
    cases h
  | some icao =>
    rw [hi] at h
    simp only at h
    split at h
    · cases h
    · cases q with
      | none => cases h
      | some q =>
        refine ⟨icao, rfl, ?_⟩
        rw [List.mem_singleton.1 h]

/-- The only text a stop line writes is that of the line it answers. -/
theorem stopText_of_sent {text : Text F} {rx : RxRef} {q : Option Queue} {t : Traffic F}
    {line : List UInt8} {at' : F} {v : Json F} {sent : Sent} {icao : String}
    (hv : text.parseJson line = some v) (h : sent ∈ (t.processLineTx text rx q line at').2.1)
    (hl : sent.line = .stopSending icao) : stopText v = some icao := by
  have hforward : ∀ t' : Traffic F, sent ∈ (t'.forward rx q v at').2.1 →
      stopText v = some icao := by
    intro t' h'
    unfold forward at h'
    cases hs : v.get "sync" with
    | none =>
      rw [hs] at h'
      simp only at h'
      split at h'
      · cases h'
      · split at h' <;> cases h'
    | some sy =>
      rw [hs] at h'
      simp only at h'
      cases hp : syncPair sy with
      | none =>
        rw [hp] at h'
        cases h'
      | some p =>
        rw [hp] at h'
        obtain ⟨icao', hi, hl'⟩ := forwardSync_stops h'
        rw [hl] at hl'
        cases hl'
        unfold stopText
        rw [show v.index "sync" = sy by unfold Json.index; rw [hs]; rfl, syncPair_em hp]
        exact hi
  unfold processLineTx at h
  rw [hv] at h
  simp only at h
  rcases List.mem_append.1 h with h | h
  · cases q with
    | none => cases h
    | some q => exact absurd hl (takeOffers_line h icao)
  · exact hforward _ h

end Traffic

/-! ## All the lines -/

/-- When the lines that carry a client's text are whole: rows of the results file, for the users
    of the observations solved with; denials, for the user denied; stop lines, for the frame. -/
theorem lines_whole_iff [PlainFmt F] :
    (∀ (env : Env F) (s : State F) (now : Instant) (g : Group F) (localRef : ℕ)
      (cluster : List (Arrival F)) (row : OutRow F),
      .fix row ∈ (s.solveCluster env now g localRef cluster).2 →
      ((Csv.IsRecord 13 row.csvLine ∧ ∀ l ∈ row.filteredLine, Csv.IsRecord 13 l) ↔
        ∀ u ∈ capUsed (s.selectObs cluster).used, FitsField u.user)) ∧
    (∀ d : Denial, JsonText.IsObjectLine d.render ↔
      ∀ user, d = .connected user → ∀ c ∈ user.toList, ' ' ≤ c) ∧
    ∀ (text : Text F) (rx : RxRef) (q : Option Queue) (t : Traffic F) (line : List UInt8) (at' : F)
      (v : Json F), text.parseJson line = some v →
      ∀ sent ∈ (t.processLineTx text rx q line at').2.1, ∀ icao, sent.line = .stopSending icao →
      (JsonText.IsObjectLine (sent.line.render text) ↔
        ∀ icao, stopText v = some icao → StaysInside icao) := by
  refine ⟨?_, Denial.isObjectLine_iff, ?_⟩
  · intro env s now g localRef cluster row h
    obtain ⟨a, sol, smoothed, hp, rfl⟩ :=
      Turn.published_of_mem_out (t := .solve now g localRef cluster) h
    obtain ⟨_, _, _, _, heq, ha, -, -⟩ := Turn.published_eq_some hp
    cases heq
    have hused := (State.made_of_attempted ha).1.used
    rw [← hused]
    unfold State.row
    simp only
    rw [isRecord_csvRow_iff]
    refine ⟨fun h => h.1, fun h => ⟨h, fun l hl => ?_⟩⟩
    obtain ⟨p, -, rfl⟩ := Option.map_eq_some_iff.1 hl
    exact (isRecord_csvRow_iff a p sol.errEstM).2 h
  · intro text rx q t line at' v hv sent hsent icao hl
    rw [hl, isObjectLine_stopSending_iff, Traffic.stopText_of_sent hv hsent hl]
    exact ⟨fun h icao' heq => by cases heq; exact h, fun h => h icao rfl⟩

/-! ## Lines that break -/

namespace Sample

/-- The run of five, every user with a quote and a newline at its end. -/
def quotedUsers : List (Shard.Event ℚ) :=
  fiveReport.map fun
    | .msg now heard (.addReceiver info) =>
      .msg now heard (.addReceiver { info with user := info.user ++ "\"\n" })
    | e => e

/-- A sync pair whose frame has quotes where the address of a DF17 frame is. -/
def quotedFrame : Json ℚ :=
  .obj [("sync", .obj [("et", .num 1), ("ot", .num 2),
    ("em", .str "8d\"],\"x58c382d690c8ac2863a70"), ("om", .str "8d")])]

/-- The reader of one line. -/
def text (v : Json ℚ) : Text ℚ where
  parseJson _ := some v
  jsonStrings _ := "[]"
  toLowercase s := s

/-- A connection that may have one aircraft, and has it. -/
def full : Traffic ℚ := ((Traffic.new 1).onSync "3c6444" 1).1

/-- What the connection is written for the pair. -/
def stops (v : Json ℚ) : List Sent :=
  (full.processLineTx (text v) ⟨0, 0⟩ (some fun _ => true) [] 2).2.1

/-- A fix whose row is no record of 13 columns. -/
def hasBrokenRow : OutMsg ℚ → Bool
  | .fix row => decide ¬ Csv.IsRecord 13 row.csvLine
  | .selfTruth _ => false

/-- The sweep of that run emits such a fix. -/
theorem exists_brokenRow :
    ∃ e row, quotedUsers[32]? = some e ∧
      .fix row ∈ Shard.emits fitting (Shard.stateAt fitting config quotedUsers 32) e ∧
      ¬ Csv.IsRecord 13 row.csvLine := by
  have h : (quotedUsers[32]?.any fun e =>
      (Shard.emits fitting (Shard.stateAt fitting config quotedUsers 32) e).any hasBrokenRow) =
        true := by
    decide +kernel
  obtain ⟨e, he, h1⟩ := (Option.any_eq_true _ _).1 h
  obtain ⟨o, ho, hb⟩ := List.any_eq_true.1 h1
  cases o with
  | selfTruth line => cases hb
  | fix row => exact ⟨e, row, he, ho, of_decide_eq_true hb⟩

/-- The stop line of the pair. -/
theorem stops_quotedFrame :
    stops quotedFrame = [{ line := .stopSending "\"],\"x5", taken := true }] := by
  decide +kernel

end Sample

/-- The row of a quoted user, the denial of a user with a newline and the stop line of a quoted
    frame are broken. -/
theorem lines_broken :
    (∃ e row, Sample.quotedUsers[32]? = some e ∧
      .fix row ∈ Shard.emits Sample.fitting
        (Shard.stateAt Sample.fitting Sample.config Sample.quotedUsers 32) e ∧
      ¬ Csv.IsRecord 13 row.csvLine) ∧
    ¬ JsonText.IsObjectLine (Denial.connected "a\nb").render ∧
    ∃ sent ∈ Sample.stops Sample.quotedFrame,
      ¬ JsonText.IsObjectLine (sent.line.render (Sample.text Sample.quotedFrame)) := by
  refine ⟨Sample.exists_brokenRow, by decide +kernel, ?_⟩
  rw [Sample.stops_quotedFrame]
  exact ⟨_, List.mem_singleton_self _, by decide +kernel⟩

/-- An emitted fix comes from the solve of a cluster. -/
theorem Shard.exists_solveCluster {env : Env F} {s : State F} {e : Shard.Event F} {row : OutRow F}
    (h : .fix row ∈ Shard.emits env s e) :
    ∃ (s' : State F) (now : Instant) (g : Group F) (localRef : ℕ) (cluster : List (Arrival F)),
      .fix row ∈ (s'.solveCluster env now g localRef cluster).2 := by
  have hspec := (Prod.ext_iff.1 (Shard.turnsOf_spec env s e)).2
  simp only at hspec
  rw [← hspec] at h
  obtain ⟨pre, t, post, -, ho⟩ := Turn.mem_outs h
  cases t with
  | solve now g localRef cluster => exact ⟨_, now, g, localRef, cluster, ho⟩
  | msg now heard m => cases ho
  | expire now => cases ho
  | take key => cases ho

/-- A user of that row does not fit its field, a denial is whole, the stop line is not. -/
theorem lines_whole_iff_quoted :
    (∃ (s : State ℚ) (cluster : List (Arrival ℚ)),
      ¬ ∀ u ∈ capUsed (s.selectObs cluster).used, FitsField u.user) ∧
    JsonText.IsObjectLine (Denial.connected "Zero").render ∧
    ¬ ∀ icao, stopText Sample.quotedFrame = some icao → StaysInside icao := by
  obtain ⟨hrows, hdenials, hstops⟩ := lines_whole_iff (F := ℚ)
  refine ⟨?_, (hdenials (.connected "Zero")).2 ?_, ?_⟩
  · obtain ⟨e, row, -, hrow, hbroken⟩ := Sample.exists_brokenRow
    obtain ⟨s, now, g, localRef, cluster, h⟩ := Shard.exists_solveCluster hrow
    exact ⟨s, cluster, fun hfits =>
      hbroken ((hrows Sample.fitting s now g localRef cluster row h).2 hfits).1⟩
  · rintro user ⟨⟩
    simp
  · have hsent : { line := .stopSending "\"],\"x5", taken := true } ∈
        Sample.stops Sample.quotedFrame := by
      rw [Sample.stops_quotedFrame]
      exact List.mem_singleton_self _
    have h := hstops (Sample.text Sample.quotedFrame) ⟨0, 0⟩ (some fun _ => true) Sample.full [] 2
      Sample.quotedFrame rfl _ hsent _ rfl
    rw [← h]
    decide +kernel

end Mlatd
