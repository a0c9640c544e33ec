/-
  Lines of text formats: a line and its end, a CSV record, a JSON object.

  Both formats are read one character at a time. A CSV reader keeps where it stands in the current
  field, and a quote inside a quoted field is written twice. A JSON reader keeps its mode and the
  containers it is in.

  `Csv.fields_quoted_iff`: a text written between quotes leaves the record its columns exactly when
  its own quotes come in pairs. `Json.run_str`: a text without quotes and backslashes leaves the
  reader inside a string exactly when no control character is in it. `Json.accepts_close_iff`: the
  end of a string, of an array and of an object is accepted in one configuration only.
  `TextLine.lines_cut`: a stream of lines that is cut anywhere holds the first of them.
-/
import Mathlib.Data.List.Basic
import Mathlib.Data.String.Basic

namespace TextLine

/-- What stands before the newline of a line: none when the newline is missing or not the only
    one. -/
def content (line : String) : Option (List Char) :=
  if line.toList.getLast? = some '\n' ∧ '\n' ∉ line.toList.dropLast then some line.toList.dropLast
  else none

theorem content_eq {line : String} {body : List Char} (h : line.toList = body ++ ['\n']) :
    content line = if '\n' ∈ body then none else some body := by
  unfold content
  rw [h, List.getLast?_concat, List.dropLast_concat]
  by_cases hb : '\n' ∈ body
  · rw [if_pos hb, if_neg (fun hn => hn.2 hb)]
  · rw [if_neg hb, if_pos ⟨rfl, hb⟩]

/-- The lines a text holds to their end. -/
def lines (cs : List Char) : List (List Char) := (cs.splitOn '\n').dropLast

/-- The text of lines, each with its end. -/
def unlines (bodies : List (List Char)) : List Char := bodies.flatMap (· ++ ['\n'])

theorem lines_of_not_mem {cs : List Char} (h : '\n' ∉ cs) : lines cs = [] := by
  unfold lines
  rw [List.splitOn_eq_singleton h]
  rfl

theorem lines_cons {body : List Char} (h : '\n' ∉ body) (rest : List Char) :
    lines (body ++ '\n' :: rest) = body :: lines rest := by
  unfold lines
  rw [List.splitOn_append_cons_self_of_not_mem h,
    List.dropLast_cons_of_ne_nil (List.splitOn_ne_nil _ _)]

theorem unlines_cons (body : List Char) (bodies : List (List Char)) :
    unlines (body :: bodies) = body ++ '\n' :: unlines bodies := by
  unfold unlines
  rw [List.flatMap_cons, List.append_assoc, List.singleton_append]

theorem unlines_concat (bodies : List (List Char)) (body : List Char) :
    unlines (bodies ++ [body]) = unlines bodies ++ (body ++ ['\n']) := by
  unfold unlines
  rw [List.flatMap_append, List.flatMap_singleton]

theorem lines_unlines {bodies : List (List Char)} (h : ∀ body ∈ bodies, '\n' ∉ body) :
    lines (unlines bodies) = bodies := by
  induction bodies with
  | nil => rfl
  | cons body bodies ih =>
    rw [List.forall_mem_cons] at h
    rw [unlines_cons, lines_cons h.1, ih h.2]

/-- A cut stream of lines holds the first ones. -/
theorem lines_cut {bodies : List (List Char)} (h : ∀ body ∈ bodies, '\n' ∉ body)
    {cs : List Char} (hcut : cs <+: unlines bodies) : lines cs <+: bodies := by
  induction bodies generalizing cs with
  | nil =>
    rw [List.prefix_nil.1 hcut]
    exact List.nil_prefix
  | cons body bodies ih =>
    rw [List.forall_mem_cons] at h
    rw [unlines_cons] at hcut
    rcases List.prefix_or_prefix_of_prefix hcut (List.prefix_append body ('\n' :: unlines bodies))
      with hin | ⟨rest, rfl⟩
    · rw [lines_of_not_mem fun hm => h.1 (hin.subset hm)]
      exact List.nil_prefix
    · rw [List.prefix_append_right_inj] at hcut
      cases rest with
      | nil =>
        rw [List.append_nil, lines_of_not_mem h.1]
        exact List.nil_prefix
      | cons c rest =>
        obtain ⟨rfl, hrest⟩ := List.cons_prefix_cons.1 hcut
        rw [lines_cons h.1]
        exact List.cons_prefix_cons.2 ⟨rfl, ih h.2 hrest⟩

end TextLine

/-! ## CSV -/

namespace Csv

/-- Where a reader stands in a field. -/
inductive Mode where
  | start
  | plain
  | quoted
  /-- after a quote in a quoted field: its end, or the first of a pair -/
  | quote

/-- The number of fields from here on; none when the text is not a record. -/
@[simp] def fields : Mode → List Char → Option ℕ
  | .quoted, [] => none
  | _, [] => some 1
  | .start, c :: cs =>
    if c = ',' then (fields .start cs).map (· + 1)
    else if c = '"' then fields .quoted cs
    else if c = '\n' ∨ c = '\r' then none
    else fields .plain cs
  | .plain, c :: cs =>
    if c = ',' then (fields .start cs).map (· + 1)
    else if c = '"' ∨ c = '\n' ∨ c = '\r' then none
    else fields .plain cs
  | .quoted, c :: cs => if c = '"' then fields .quote cs else fields .quoted cs
  | .quote, c :: cs =>
    if c = ',' then (fields .start cs).map (· + 1)
    else if c = '"' then fields .quoted cs
    else none

/-- One record of `n` fields, with its newline. -/
def IsRecord (n : ℕ) (line : String) : Prop := (TextLine.content line).bind (fields .start) = some n

instance (n : ℕ) (line : String) : Decidable (IsRecord n line) := by
  unfold IsRecord
  infer_instance

example : IsRecord 3 "a,\"b,\"\"c\",\n" := by decide +kernel

/-- Nothing that a field without quotes may not have. -/
def IsPlain (cs : List Char) : Prop := ∀ c ∈ cs, c ≠ ',' ∧ c ≠ '"' ∧ c ≠ '\n' ∧ c ≠ '\r'

/-- Every quote is one of a pair. -/
@[simp] def paired : List Char → Bool
  | [] => true
  | [c] => c != '"'
  | c :: d :: cs => if c = '"' then d == '"' && paired cs else paired (d :: cs)

theorem paired_cons {c : Char} (hc : c ≠ '"') (cs : List Char) : paired (c :: cs) = paired cs := by
  cases cs with
  | nil => simp [paired, hc]
  | cons d cs => rw [paired, if_neg hc]

/-- A comma between two texts pairs no quotes. -/
theorem paired_append_comma (a b : List Char) :
    paired (a ++ ',' :: b) = (paired a && paired b) := by
  induction a using paired.induct with
  | case1 => simp [paired, paired_cons]
  | case2 c =>
    by_cases hc : c = '"'
    · simp [paired, hc]
    · rw [List.singleton_append, paired_cons hc, paired_cons (by decide)]
      simp [paired, hc]
  | case3 d cs ih =>
    simp only [List.cons_append, paired, if_true, ih, Bool.and_assoc]
  | case4 c d cs hc ih =>
    rw [List.cons_append, paired_cons hc, ih, paired_cons hc]

theorem paired_intercalate (names : List (List Char)) :
    paired ([','].intercalate names) = true ↔ ∀ u ∈ names, paired u = true := by
  induction names with
  | nil => simp [paired]
  | cons a names ih =>
    cases names with
    | nil => simp
    | cons b names =>
      rw [List.intercalate_cons_cons, List.append_assoc, List.singleton_append,
        paired_append_comma, Bool.and_eq_true, ih]
      simp

theorem mem_intercalate {c : Char} (hc : c ≠ ',') (names : List (List Char)) :
    c ∈ [','].intercalate names ↔ ∃ u ∈ names, c ∈ u := by
  induction names with
  | nil => simp
  | cons a names ih =>
    cases names with
    | nil => simp
    | cons b names =>
      rw [List.intercalate_cons_cons, List.append_assoc, List.mem_append, List.singleton_append,
        List.mem_cons, ih]
      simp [hc]

/-- A character ends its field or is read within it. -/
theorem fields_cons {m : Mode} {c : Char} {cs : List Char} {n : ℕ}
    (h : fields m (c :: cs) = some n) :
    (∃ n', fields .start cs = some n' ∧ n = n' + 1) ∨ ∃ m', fields m' cs = some n := by
  have hcomma : ∀ {o : Option ℕ}, o.map (· + 1) = some n → ∃ n', o = some n' ∧ n = n' + 1 := by
    intro o ho
    obtain ⟨n', h1, h2⟩ := Option.map_eq_some_iff.1 ho
    exact ⟨n', h1, h2.symm⟩
  cases m with
  | start =>
    rw [fields] at h
    split at h
    · exact Or.inl (hcomma h)
    split at h
    · exact Or.inr ⟨_, h⟩
    split at h
    · cases h
    · exact Or.inr ⟨_, h⟩
  | plain =>
    rw [fields] at h
    split at h
    · exact Or.inl (hcomma h)
    split at h
    · cases h
    · exact Or.inr ⟨_, h⟩
  | quoted =>
    rw [fields] at h
    split at h
    · exact Or.inr ⟨_, h⟩
    · exact Or.inr ⟨_, h⟩
  | quote =>
    rw [fields] at h
    split at h
    · exact Or.inl (hcomma h)
    split at h
    · exact Or.inr ⟨_, h⟩
    · cases h

/-! ### A plain field -/

theorem fields_plain {m : Mode} (hm : m = .start ∨ m = .plain) {cs : List Char} (h : IsPlain cs)
    (rest : List Char) :
    fields m (cs ++ ',' :: rest) = (fields .start rest).map (· + 1) := by
  induction cs generalizing m with
  | nil => rcases hm with rfl | rfl <;> simp [fields]
  | cons c cs ih =>
    obtain ⟨h1, h2, h3, h4⟩ := h c List.mem_cons_self
    have hcs := ih (Or.inr rfl) fun d hd => h d (List.mem_cons_of_mem c hd)
    rcases hm with rfl | rfl <;> simp [fields, h1, h2, h3, h4, hcs]

/-- Fields without quotes, each with its comma. -/
theorem fields_plain_all {cols : List (List Char)} (h : ∀ col ∈ cols, IsPlain col)
    (rest : List Char) :
    fields .start (cols.flatMap (· ++ [',']) ++ rest) =
      (fields .start rest).map (· + cols.length) := by
  induction cols with
  | nil => simp
  | cons col cols ih =>
    rw [List.flatMap_cons, List.append_assoc, List.append_assoc, List.singleton_append,
      fields_plain (Or.inl rfl) (h col List.mem_cons_self),
      ih fun d hd => h d (List.mem_cons_of_mem col hd), Option.map_map]
    rfl

/-! ### A quoted field -/

theorem fields_quoted_eq_none {cs : List Char} (h : '"' ∉ cs) : fields .quoted cs = none := by
  induction cs with
  | nil => rfl
  | cons c cs ih =>
    rw [List.mem_cons, not_or] at h
    rw [fields, if_neg (Ne.symm h.1), ih h.2]

/-- Quotes in pairs stay in their field. -/
theorem fields_quoted_of_paired {u : List Char} (h : paired u = true) (rest : List Char) :
    fields .quoted (u ++ '"' :: ',' :: rest) = (fields .start rest).map (· + 1) := by
  induction u using paired.induct with
  | case1 => simp [fields]
  | case2 c =>
    have hc : c ≠ '"' := by simpa [paired] using h
    simp [fields, hc]
  | case3 d cs ih =>
    obtain ⟨hd, hcs⟩ : d = '"' ∧ paired cs = true := by simpa [paired] using h
    simp [fields, hd, ih hcs]
  | case4 c d cs hc ih =>
    rw [paired, if_neg hc] at h
    rw [List.cons_append, fields, if_neg hc, ih h]

section
variable {rest : List Char} {k : ℕ}

/-- However the text reads, the fields after it are there. -/
theorem succ_le_fields (hq : '"' ∉ rest) (hk : fields .start rest = some k) (u : List Char)
    {m : Mode} {n : ℕ} (h : fields m (u ++ '"' :: ',' :: rest) = some n) : k + 1 ≤ n := by
  have hopen : fields .quoted rest = none := fields_quoted_eq_none hq
  induction u generalizing m n with
  | nil =>
    cases m with
    | start => simp [fields, hopen] at h
    | plain => simp [fields] at h
    | quoted =>
      simp [fields, hk] at h
      omega
    | quote => simp [fields, hopen] at h
  | cons c cs ih =>
    rcases fields_cons h with ⟨n', h', rfl⟩ | ⟨m', h'⟩
    · have := ih h'
      omega
    · exact ih h'

/-- A quote without a pair ends its field early. -/
theorem lt_fields_of_not_paired (hq : '"' ∉ rest) (hk : fields .start rest = some k)
    {u : List Char} (hu : paired u = false) {n : ℕ}
    (h : fields .quoted (u ++ '"' :: ',' :: rest) = some n) : k + 1 < n := by
  induction u using paired.induct with
  | case1 => simp [paired] at hu
  | case2 c =>
    have hc : c = '"' := by simpa [paired] using hu
    simp [fields, hc, fields_quoted_eq_none hq] at h
  | case3 d cs ih =>
    by_cases hd : d = '"'
    · simp only [List.cons_append, fields, hd, if_true] at h
      exact ih (by simpa [paired, hd] using hu) (by simpa using h)
    · simp only [List.cons_append, fields, if_true, if_neg hd] at h
      split at h
      · obtain ⟨n', h', rfl⟩ := Option.map_eq_some_iff.1 h
        have := succ_le_fields hq hk cs h'
        omega
      · cases h
  | case4 c d cs hc ih =>
    rw [paired, if_neg hc] at hu
    rw [List.cons_append, fields, if_neg hc] at h
    exact ih hu h

/-- The text between two quotes is one field exactly when its own quotes come in pairs. -/
theorem fields_quoted_iff (hq : '"' ∉ rest) (hk : fields .start rest = some k) (u : List Char) :
    fields .quoted (u ++ '"' :: ',' :: rest) = some (k + 1) ↔ paired u = true := by
  constructor
  · intro h
    by_contra hu
    exact absurd (lt_fields_of_not_paired hq hk (Bool.not_eq_true _ ▸ hu) h) (lt_irrefl _)
  · intro hu
    rw [fields_quoted_of_paired hu, hk]
    rfl

/-- A record of plain columns, a text between quotes, and what follows it. -/
theorem isRecord_iff {line : String} {cols : List (List Char)} {u : List Char}
    (hcols : ∀ col ∈ cols, IsPlain col) (hq : '"' ∉ rest) (hn : '\n' ∉ rest)
    (hk : fields .start rest = some k)
    (hline : line.toList =
      (cols.flatMap (· ++ [',']) ++ '"' :: (u ++ '"' :: ',' :: rest)) ++ ['\n']) :
    IsRecord (k + 1 + cols.length) line ↔ '\n' ∉ u ∧ paired u = true := by
  have hplain : '\n' ∉ cols.flatMap (· ++ [',']) := by
    intro h
    obtain ⟨col, hc, hm⟩ := List.mem_flatMap.1 h
    rcases List.mem_append.1 hm with hm | hm
    · exact (hcols col hc _ hm).2.2.1 rfl
    · exact absurd hm (by decide)
  have hbody : '\n' ∈ cols.flatMap (· ++ [',']) ++ '"' :: (u ++ '"' :: ',' :: rest) ↔ '\n' ∈ u := by
    simp [hplain, hn]
  have hstart : fields .start ('"' :: (u ++ '"' :: ',' :: rest)) =
      fields .quoted (u ++ '"' :: ',' :: rest) := by
    rw [fields, if_neg (by decide), if_pos rfl]
  unfold IsRecord
  rw [TextLine.content_eq hline]
  by_cases hu : '\n' ∈ u
  · rw [if_pos (hbody.2 hu)]
    simp [hu]
  · rw [if_neg (mt hbody.1 hu), Option.bind_some, fields_plain_all hcols, hstart,
      ← fields_quoted_iff hq hk]
    simp [hu]

end

end Csv

/-! ## JSON -/

namespace JsonText

inductive Container where
  | arr
  | obj
  deriving DecidableEq

inductive Literal where
  | null
  | true
  | false
  deriving DecidableEq

def Literal.text : Literal → List Char
  | .null => ['n', 'u', 'l', 'l']
  | .true => ['t', 'r', 'u', 'e']
  | .false => ['f', 'a', 'l', 's', 'e']

/-- Where a reader stands in the innermost container. -/
inductive Mode where
  | value
  /-- after the bracket of an array -/
  | first
  /-- after the brace of an object -/
  | firstKey
  /-- after the comma of an object -/
  | key
  | colon
  | str (isKey : Bool)
  /-- after a backslash -/
  | esc (isKey : Bool)
  /-- in a `\u` escape, with `n + 1` digits to come -/
  | hex (isKey : Bool) (n : ℕ)
  | literal (w : Literal) (read : ℕ)
  | minus
  | zero
  | int
  | point
  | frac
  /-- after the `e` of a number -/
  | exp
  | expSign
  | expInt
  /-- after a value -/
  | after
  deriving DecidableEq

/-- A value may end here. -/
def Mode.done : Mode → Bool
  | .zero | .int | .frac | .expInt | .after => true
  | _ => false

abbrev Config := Mode × List Container

def isSpace (c : Char) : Bool := c == ' ' || c == '\t' || c == '\n' || c == '\r'

/-- The first character of a value. -/
def begin (st : List Container) (c : Char) : Option Config :=
  if c = '\x7b' then some (.firstKey, .obj :: st)
  else if c = '[' then some (.first, .arr :: st)
  else if c = '"' then some (.str false, st)
  else if c = '-' then some (.minus, st)
  else if c = '0' then some (.zero, st)
  else if c.isDigit then some (.int, st)
  else if c = 'n' then some (.literal .null 1, st)
  else if c = 't' then some (.literal .true 1, st)
  else if c = 'f' then some (.literal .false 1, st)
  else none

/-- A character after a value. -/
def ended (st : List Container) (c : Char) : Option Config :=
  if isSpace c then some (.after, st)
  else
    match st with
    | .arr :: rest =>
      if c = ',' then some (.value, st) else if c = ']' then some (.after, rest) else none
    | .obj :: rest =>
      if c = ',' then some (.key, st) else if c = '\x7d' then some (.after, rest) else none
    | [] => none

/-- After a text in quotes. -/
def closed (isKey : Bool) (st : List Container) : Config :=
  (if isKey then .colon else .after, st)

def isHex (c : Char) : Bool :=
  c.isDigit || ('a' ≤ c && c ≤ 'f') || ('A' ≤ c && c ≤ 'F')

def step (p : Config) (c : Char) : Option Config :=
  let st := p.2
  match p.1 with
  | .value => if isSpace c then some p else begin st c
  | .first => if isSpace c then some p else if c = ']' then ended st c else begin st c
  | .firstKey =>
    if isSpace c then some p
    else if c = '\x7d' then ended st c
    else if c = '"' then some (.str true, st) else none
  | .key => if isSpace c then some p else if c = '"' then some (.str true, st) else none
  | .colon => if isSpace c then some p else if c = ':' then some (.value, st) else none
  | .str isKey =>
    if c = '"' then some (closed isKey st)
    else if c = '\\' then some (.esc isKey, st)
    else if ' ' ≤ c then some p else none
  | .esc isKey =>
    if c = 'u' then some (.hex isKey 3, st)
    else if c ∈ ['"', '\\', '/', 'b', 'f', 'n', 'r', 't'] then some (.str isKey, st) else none
  | .hex isKey n =>
    if isHex c = false then none
    else match n with
      | 0 => some (.str isKey, st)
      | n + 1 => some (.hex isKey n, st)
  | .literal w read =>
    if w.text[read]? = some c then
      some (if read + 1 = w.text.length then (.after, st) else (.literal w (read + 1), st))
    else none
  | .minus =>
    if c = '0' then some (.zero, st) else if c.isDigit then some (.int, st) else none
  | .zero =>
    if c = '.' then some (.point, st)
    else if c = 'e' ∨ c = 'E' then some (.exp, st) else ended st c
  | .int =>
    if c.isDigit then some p
    else if c = '.' then some (.point, st)
    else if c = 'e' ∨ c = 'E' then some (.exp, st) else ended st c
  | .point => if c.isDigit then some (.frac, st) else none
  | .frac =>
    if c.isDigit then some p
    else if c = 'e' ∨ c = 'E' then some (.exp, st) else ended st c
  | .exp =>
    if c.isDigit then some (.expInt, st)
    else if c = '+' ∨ c = '-' then some (.expSign, st) else none
  | .expSign => if c.isDigit then some (.expInt, st) else none
  | .expInt => if c.isDigit then some p else ended st c
  | .after => ended st c

/-- The reader after a text; none where the text is not the start of any JSON text. -/
def run (p : Config) (cs : List Char) : Option Config := cs.foldlM step p

/-- Nothing is open. -/
def complete : Option Config → Bool
  | some (m, []) => m.done
  | _ => false

def isObject (cs : List Char) : Bool :=
  cs.head? == some '\x7b' && complete (run (.value, []) cs)

/-- One object, with its newline. -/
def IsObjectLine (line : String) : Prop := (TextLine.content line).any isObject = true

instance (line : String) : Decidable (IsObjectLine line) := by
  unfold IsObjectLine
  infer_instance

example : IsObjectLine "\x7b\"a\":[1.5e3,\"b\\u00e9\",null],\"c\":\x7b\x7d\x7d\n" := by decide +kernel

theorem run_append (p : Config) (a b : List Char) : run p (a ++ b) = (run p a).bind (run · b) := by
  unfold run
  rw [List.foldlM_append]
  rfl

theorem run_cons (p : Config) (c : Char) (cs : List Char) :
    run p (c :: cs) = (step p c).bind (run · cs) := by
  unfold run
  rw [List.foldlM_cons]
  rfl

/-- A text without quotes and backslashes is read in its string, unless a control character is in
    it. -/
theorem run_str {cs : List Char} (h : '"' ∉ cs) (h' : '\\' ∉ cs) (isKey : Bool)
    (st : List Container) :
    run (.str isKey, st) cs =
      if cs.all fun c => decide (' ' ≤ c) then some (.str isKey, st) else none := by
  induction cs with
  | nil => simp [run]
  | cons c cs ih =>
    rw [List.mem_cons, not_or] at h h'
    have hc : step (.str isKey, st) c = if ' ' ≤ c then some (.str isKey, st) else none := by
      simp [step, Ne.symm h.1, Ne.symm h'.1]
    rw [run_cons, hc]
    by_cases hp : ' ' ≤ c
    · rw [if_pos hp, Option.bind_some, ih h.2 h'.2]
      simp [hp]
    · rw [if_neg hp, if_neg fun hall =>
        hp (of_decide_eq_true (List.all_eq_true.1 hall c List.mem_cons_self))]
      rfl

theorem Literal.text_quote (w : Literal) (n : ℕ) : w.text[n]? ≠ some '"' := by
  intro h
  have hm := List.mem_of_getElem? h
  cases w <;> simp [Literal.text] at hm

/-- A quote ends the string it is read in, or leaves the reader in a string. -/
theorem step_quote {p q : Config} (h : step p '"' = some q) :
    (∃ isKey, p.1 = .str isKey ∧ q = closed isKey p.2) ∨ ∃ isKey, q.1 = .str isKey := by
  obtain ⟨m, st⟩ := p
  cases m with
  | str isKey => exact Or.inl ⟨isKey, rfl, by simpa [step, @eq_comm _ _ q] using h⟩
  | value | first | firstKey | key | esc isKey =>
    right
    simp [step, isSpace, begin] at h
    simp [← h]
  | literal w read =>
    simp [step, Literal.text_quote] at h
  | hex isKey n => simp [step, isHex] at h
  | colon | minus | point | exp | expSign => simp [step, isSpace] at h
  | zero | int | frac | expInt | after =>
    cases st with
    | nil => simp [step, ended, isSpace] at h
    | cons k st => cases k <;> simp [step, ended, isSpace] at h

/-- An array in an object, both closed. -/
theorem eq_of_complete_ended {st : List Container}
    (h : complete (run (.after, st) [']', '\x7d']) = true) : st = [.arr, .obj] := by
  match st with
  | [] => cases h
  | .obj :: st => cases h
  | [.arr] => cases h
  | .arr :: .arr :: st => cases h
  | [.arr, .obj] => rfl
  | .arr :: .obj :: .arr :: st => cases h
  | .arr :: .obj :: .obj :: st => cases h

/-- The end of a string in an array in an object is the end of the text in one configuration
    only. -/
theorem complete_close_iff (p : Config) :
    complete (run p ['"', ']', '\x7d']) = true ↔ p = (.str false, [.arr, .obj]) := by
  constructor
  · intro h
    rw [run_cons] at h
    cases hq : step p '"' with
    | none =>
      rw [hq] at h
      cases h
    | some q =>
      rw [hq, Option.bind_some] at h
      rcases step_quote hq with ⟨isKey, hp, rfl⟩ | ⟨isKey, hk⟩
      · obtain ⟨m, st⟩ := p
        subst hp
        cases isKey with
        | true => cases h
        | false => exact congrArg (Mode.str false, ·) (eq_of_complete_ended h)
      · obtain ⟨m, st⟩ := q
        subst hk
        rw [run_str (by decide) (by decide), if_pos (by simp)] at h
        cases st <;> cases h
  · rintro rfl
    rfl

end JsonText
