/-
  SBS output (main.rs, sbs_writer and the task that dials a consumer): what a consumer of the fix
  stream hears, connection after connection.

  The writer of a connection subscribes to the broadcast of published rows, and writes one row's
  line or, every 30 s, a bare newline, and waits until it is written. A write that fails part way
  ends the connection; the next one subscribes anew and writes nothing over again. The lines are
  ASCII, so the model counts characters for bytes.

  `sbs_delivered`: through any number of connections that fail anywhere, the lines that came whole
  are published rows, in the order of publication and each row on at most one connection; and a
  connection that is up and has not fallen too far behind delivers every row it has yet to take.
-/
import Mlatd.Output.Sbs
import Mlatd.Server.Results
import Mlatd.Tracks.Publish

namespace Mlatd

open Broadcast

variable {F : Type} [F64 F]

/-- A message of a shard to the output task. -/
structure EmittedMsg (F : Type) [F64 F] where
  env : Env F
  state : State F
  event : Shard.Event F
  msg : OutMsg F
  emitted : msg ∈ Shard.emits env state event

/-! ## A connection -/

structure SbsConn where
  sub : Receiver Published
  /-- The bytes being written; none while the writer waits for a row or for its timer. -/
  writing : Option (List Char)
  /-- What has reached the consumer. -/
  socket : List Char

namespace SbsConn

def opened (log : List Published) : SbsConn := ⟨Broadcast.subscribe log, none, []⟩

variable (log : List Published) (c : SbsConn)

def recv : SbsConn :=
  if c.writing.isSome then c
  else
    let p := c.sub.recv maxKept log
    { c with sub := p.1, writing := p.2.map fun row => row.sbsLine.toList }

def keepalive : SbsConn := if c.writing.isSome then c else { c with writing := some ['\n'] }

/-- The write is done. -/
def wrote : SbsConn := { c with writing := none, socket := c.socket ++ c.writing.getD [] }

/-- The write fails after `n` bytes. -/
def cut (n : ℕ) : SbsConn :=
  { c with writing := none, socket := c.socket ++ (c.writing.getD []).take n }

/-- What the consumer makes of it: its whole lines, without those that do not start with MSG. -/
def records : List (List Char) :=
  (TextLine.lines c.socket).filter fun line => line.take 3 == ['M', 'S', 'G']

end SbsConn

/-! ## The dialling task -/

/-- The output task, the connections that went down, oldest first, and the one that is up. -/
structure SbsFeed (F : Type) where
  task : OutTask F
  past : List SbsConn
  conn : Option SbsConn

namespace SbsFeed

def log (s : SbsFeed F) : List Published := s.task.published.map OutRow.published

def conns (s : SbsFeed F) : List SbsConn := s.past ++ s.conn.toList

def start (task : OutTask F) : SbsFeed F := ⟨task, [], none⟩

inductive Event (F : Type) [F64 F] where
  /-- The output task handles a message of a shard. -/
  | row (r : Router F) (m : EmittedMsg F)
  | dial
  | recv
  /-- 30 s are over. -/
  | keepalive
  | wrote
  | failed (n : ℕ)

def step (files : OutFiles) (s : SbsFeed F) : Event F → SbsFeed F
  | .row r m => { s with task := OutTask.step files s.task (r, m.msg) }
  | .dial => if s.conn.isSome then s else { s with conn := some (SbsConn.opened s.log) }
  | .recv => { s with conn := s.conn.map (SbsConn.recv s.log) }
  | .keepalive => { s with conn := s.conn.map SbsConn.keepalive }
  | .wrote => { s with conn := s.conn.map SbsConn.wrote }
  | .failed n =>
    match s.conn with
    | none => s
    | some c =>
      if c.writing.isSome then { s with past := s.past ++ [c.cut n], conn := none } else s

/-- `n` rows taken and written, one after the other. -/
def rounds (F : Type) [F64 F] : ℕ → List (Event F)
  | 0 => []
  | n + 1 => .recv :: .wrote :: rounds F n

end SbsFeed

/-! ## The lines -/

/-- A row's line without its end. -/
def Published.sbsBody (p : Published) : Option (List Char) := TextLine.content p.sbsLine

/-- The row's line is one line, of a message. -/
def Published.Whole (p : Published) : Prop :=
  ∃ body, p.sbsLine.toList = body ++ ['\n'] ∧ '\n' ∉ body ∧ body.take 3 = ['M', 'S', 'G']

theorem Published.sbsBody_eq {p : Published} {body : List Char}
    (h : p.sbsLine.toList = body ++ ['\n']) (hb : '\n' ∉ body) : p.sbsBody = some body := by
  unfold sbsBody
  rw [TextLine.content_eq h, if_neg hb]

theorem whole_sbsRow [PlainFmt F] (a : Attempt F) (pos : Geodetic F) :
    ∃ body, (sbsRow a pos).toList = body ++ ['\n'] ∧ '\n' ∉ body ∧
      body.take 3 = ['M', 'S', 'G'] := by
  refine ⟨[','].intercalate (sbsCols a pos) ++ ['\r'], ?_, ?_, ?_⟩
  · rw [sbsRow_toList, List.append_assoc]
    rfl
  · intro hm
    rcases List.mem_append.1 hm with hm | hm
    · obtain ⟨col, hcol, hc⟩ := (Csv.mem_intercalate (by decide) _).1 hm
      have htoken := (isToken_sbsCols a pos col hcol '\n' hc).1
      revert htoken
      decide
    · revert hm
      decide
  · unfold sbsCols
    rw [List.intercalate_cons_cons]
    rfl

/-- A row that a shard emits has a whole line. -/
theorem EmittedMsg.whole [PlainFmt F] (m : EmittedMsg F) {row : OutRow F} (h : m.msg = .fix row) :
    row.published.Whole := by
  have hspec := (Prod.ext_iff.1 (Shard.turnsOf_spec m.env m.state m.event)).2
  have hm := m.emitted
  simp only at hspec
  rw [h, ← hspec] at hm
  obtain ⟨_, t, _, -, ho⟩ := Turn.mem_outs hm
  obtain ⟨a, sol, smoothed, -, rfl⟩ := Turn.published_of_mem_out ho
  exact whole_sbsRow a sol.pos

/-- A line more without a newline of its own. -/
theorem newline_notMem_concat {bodies : List (List Char)} {body : List Char}
    (h : ∀ b ∈ bodies, '\n' ∉ b) (hbody : '\n' ∉ body) : ∀ b ∈ bodies ++ [body], '\n' ∉ b := by
  intro b hb
  rcases List.mem_append.1 hb with hb | hb
  · exact h b hb
  · rw [List.mem_singleton.1 hb]
    exact hbody

/-! ## One connection -/

namespace SbsConn

variable {log : List Published} {c : SbsConn}

/-- The socket, with what is being written, holds whole lines, and those of messages are the lines
    of the rows taken. -/
structure Inv (log : List Published) (c : SbsConn) : Prop where
  sound : c.sub.Sound log
  text : ∃ bodies : List (List Char), (∀ body ∈ bodies, '\n' ∉ body) ∧
    c.socket ++ c.writing.getD [] = TextLine.unlines bodies ∧
    (bodies.filter fun line => line.take 3 == ['M', 'S', 'G']).map some =
      c.sub.taken.map Published.sbsBody

theorem opened_inv (log : List Published) : Inv log (opened log) :=
  ⟨Receiver.subscribe_sound log, [], nofun, rfl, rfl⟩

theorem Inv.append (h : Inv log c) (more : List Published) : Inv (log ++ more) c :=
  ⟨h.sound.append more, h.text⟩

@[simp] theorem recv_first (log : List Published) (c : SbsConn) :
    (c.recv log).sub.first = c.sub.first := by
  unfold recv
  split
  · rfl
  · exact Receiver.recv_first maxKept log c.sub

@[simp] theorem keepalive_sub (c : SbsConn) : c.keepalive.sub = c.sub := by
  unfold keepalive
  split <;> rfl

/-- The row a receive takes is one of those sent since the connection was opened. -/
theorem recv_mem (h : Inv log c) {p : Published} (hp : log[c.sub.next]? = some p) {first : ℕ}
    (hfirst : first ≤ c.sub.first) : p ∈ log.drop first := by
  have hle := h.sound.first_le
  have hget : (log.drop first)[c.sub.next - first]? = some p := by
    rw [List.getElem?_drop, Nat.add_sub_cancel' (hfirst.trans hle), hp]
  exact List.mem_of_getElem? hget

theorem recv_inv (h : Inv log c) {first : ℕ} (hfirst : first ≤ c.sub.first)
    (hwhole : ∀ p ∈ log.drop first, p.Whole) : Inv log (c.recv log) := by
  unfold recv
  split
  · exact h
  · next hidle =>
    rw [Option.not_isSome_iff_eq_none] at hidle
    refine ⟨Receiver.recv_sound h.sound maxKept, ?_⟩
    obtain ⟨bodies, hnl, htext, hrows⟩ := h.text
    rw [hidle, Option.getD_none, List.append_nil] at htext
    rcases Receiver.recv_cases maxKept log c.sub with ⟨-, he⟩ | ⟨-, -, he⟩ | ⟨-, p, hp, he⟩
    · rw [he]
      exact ⟨bodies, hnl, by simpa using htext, hrows⟩
    · rw [he]
      exact ⟨bodies, hnl, by simpa using htext, hrows⟩
    · rw [he]
      obtain ⟨body, hline, hbody, hmsg⟩ := hwhole p (recv_mem h hp hfirst)
      refine ⟨bodies ++ [body], newline_notMem_concat hnl hbody, ?_, ?_⟩
      · simp only
        rw [TextLine.unlines_concat, htext, Option.map_some, Option.getD_some, hline]
      · simp only
        rw [List.filter_append, List.map_append, hrows, List.map_append]
        simp [hmsg, Published.sbsBody_eq hline hbody]

theorem keepalive_inv (h : Inv log c) : Inv log c.keepalive := by
  unfold keepalive
  split
  · exact h
  · next hidle =>
    rw [Option.not_isSome_iff_eq_none] at hidle
    obtain ⟨bodies, hnl, htext, hrows⟩ := h.text
    rw [hidle, Option.getD_none, List.append_nil] at htext
    refine ⟨h.sound, bodies ++ [[]], newline_notMem_concat hnl List.not_mem_nil, ?_, ?_⟩
    · rw [TextLine.unlines_concat, htext]
      rfl
    · rw [List.filter_append, List.map_append, hrows]
      exact List.append_nil _

theorem wrote_inv (h : Inv log c) : Inv log c.wrote := by
  obtain ⟨bodies, hnl, htext, hrows⟩ := h.text
  refine ⟨h.sound, bodies, hnl, ?_, hrows⟩
  unfold wrote
  simp only
  rw [Option.getD_none, List.append_nil, htext]

/-- Of what has come of the socket the records are the first rows taken. -/
theorem Inv.told (h : Inv log c) {c' : SbsConn}
    (hc : c'.socket <+: c.socket ++ c.writing.getD []) :
    ∃ k, c'.records.map some = (c.sub.taken.take k).map Published.sbsBody := by
  obtain ⟨bodies, hnl, htext, hrows⟩ := h.text
  rw [htext] at hc
  have hcut : c'.records.map some <+: c.sub.taken.map Published.sbsBody := by
    rw [← hrows]
    exact ((TextLine.lines_cut hnl hc).filter _).map some
  refine ⟨(c'.records.map some).length, ?_⟩
  rw [List.map_take]
  exact List.prefix_iff_eq_take.1 hcut

end SbsConn

/-! ## All connections -/

/-- The records of a connection are these rows. -/
def SbsConn.Told (c : SbsConn) (rows : List Published) : Prop :=
  c.records.map some = rows.map Published.sbsBody

namespace SbsFeed

variable {files : OutFiles} {first : ℕ} {s : SbsFeed F}

/-- Where the connections that went down had got to at most. -/
def mark (log : List Published) : Option SbsConn → ℕ
  | none => log.length
  | some c => c.sub.first

structure Inv (first : ℕ) (s : SbsFeed F) : Prop where
  first_le : first ≤ mark s.log s.conn
  mark_le : mark s.log s.conn ≤ s.log.length
  whole : ∀ p ∈ s.log.drop first, p.Whole
  past : ∃ told : List (List Published),
    told.flatten.Sublist ((s.log.take (mark s.log s.conn)).drop first) ∧
    List.Forall₂ SbsConn.Told s.past told
  conn : ∀ c, s.conn = some c → c.Inv s.log

omit [F64 F] in
theorem start_inv (task : OutTask F) : Inv task.published.length (start task) where
  first_le := (List.length_map _).ge
  mark_le := le_rfl
  whole := by
    intro p hp
    have hlen : (start task).log.length = task.published.length := List.length_map _
    rw [← hlen, List.drop_length] at hp
    cases hp
  past := ⟨[], List.nil_sublist _, List.Forall₂.nil⟩
  conn := nofun

/-- What stood between two places and what follows up to a third. -/
theorem drop_take_append {α : Type*} (l : List α) {a b c : ℕ} (hab : a ≤ b) (hbc : b ≤ c) :
    (l.take b).drop a ++ (l.take c).drop b = (l.take c).drop a := by
  have h := List.take_append_drop (b - a) ((l.take c).drop a)
  rw [List.drop_drop, Nat.add_sub_cancel' hab, List.drop_take, List.take_take,
    min_eq_left (Nat.sub_le_sub_right hbc a), ← List.drop_take, ← List.drop_take] at h
  exact h

/-- A message handled adds a row with a whole line to the log, or nothing. -/
theorem row_log [PlainFmt F] (files : OutFiles) (s : SbsFeed F) (r : Router F) (m : EmittedMsg F) :
    ∃ more, (step files s (.row r m)).log = s.log ++ more ∧ ∀ p ∈ more, p.Whole := by
  rcases OutTask.step_cases files s.task (r, m.msg) with ⟨row, hrow, -, hs⟩ | ⟨-, hs⟩
  · refine ⟨[row.published], ?_, fun p hp => ?_⟩
    · unfold log step
      simp only
      rw [hs, List.map_append]
      rfl
    · rw [List.mem_singleton.1 hp]
      exact m.whole hrow
  · refine ⟨[], ?_, nofun⟩
    unfold log step
    simp only
    rw [hs, List.append_nil]

omit [F64 F] in
/-- A connection changed in place. -/
theorem Inv.mapConn (h : Inv first s) {g : SbsConn → SbsConn}
    (hfirst : ∀ c, (g c).sub.first = c.sub.first)
    (hinv : ∀ c, s.conn = some c → (g c).Inv s.log) :
    Inv first { s with conn := s.conn.map g } := by
  have hmark : mark s.log (s.conn.map g) = mark s.log s.conn := by
    cases s.conn with
    | none => rfl
    | some c => exact hfirst c
  refine ⟨hmark ▸ h.first_le, hmark ▸ h.mark_le, h.whole, hmark ▸ h.past, fun c hc => ?_⟩
  obtain ⟨c', hc', rfl⟩ := Option.map_eq_some_iff.1 hc
  exact hinv c' hc'

theorem row_inv [PlainFmt F] (h : Inv first s) (r : Router F) (m : EmittedMsg F) :
    Inv first (step files s (.row r m)) := by
  obtain ⟨more, hlog, hmore⟩ := row_log files s r m
  obtain ⟨hfirst, hmark, hwhole, ⟨told, hsub, hpast⟩, hconn⟩ := h
  have hnew : mark s.log s.conn ≤ mark (s.log ++ more) s.conn ∧
      mark (s.log ++ more) s.conn ≤ (s.log ++ more).length := by
    rw [List.length_append]
    cases hc : s.conn with
    | none =>
      show s.log.length ≤ (s.log ++ more).length ∧ (s.log ++ more).length ≤ _
      rw [List.length_append]
      exact ⟨Nat.le_add_right _ _, le_rfl⟩
    | some c =>
      rw [hc] at hmark
      exact ⟨le_rfl, hmark.trans (Nat.le_add_right _ _)⟩
  refine ⟨?_, ?_, ?_, ⟨told, ?_, hpast⟩, fun c hc => ?_⟩
  · rw [hlog]
    exact hfirst.trans hnew.1
  · rw [hlog]
    exact hnew.2
  · rw [hlog, List.drop_append_of_le_length (hfirst.trans hmark)]
    intro p hp
    rcases List.mem_append.1 hp with hp | hp
    · exact hwhole p hp
    · exact hmore p hp
  · refine hsub.trans ?_
    have htake : (s.log ++ more).take (mark s.log s.conn) = s.log.take (mark s.log s.conn) :=
      List.take_append_of_le_length hmark
    rw [hlog, ← htake]
    exact (List.take_sublist_take_left hnew.1).drop _
  · rw [hlog]
    exact (hconn c hc).append more

theorem dial_inv (h : Inv first s) : Inv first (step files s .dial) := by
  unfold step
  simp only
  split
  · exact h
  · next hnone =>
    rw [Option.not_isSome_iff_eq_none] at hnone
    obtain ⟨hfirst, hmark, hwhole, hpast, -⟩ := h
    rw [hnone] at hfirst hmark hpast
    refine ⟨hfirst, hmark, hwhole, hpast, ?_⟩
    rintro c ⟨⟩
    exact SbsConn.opened_inv s.log

omit [F64 F] in
/-- Whatever has come of the connection that is up tells the first of the rows it took, and these
    follow what the others told. -/
theorem Inv.told_conn (h : Inv first s) {c c' : SbsConn} (hc : s.conn = some c)
    (hcut : c'.socket <+: c.socket ++ c.writing.getD []) : ∃ told : List (List Published),
    told.flatten.Sublist (s.log.drop first) ∧
      List.Forall₂ SbsConn.Told (s.past ++ [c']) told := by
  obtain ⟨hfirst, -, -, ⟨told, hsub, hpast⟩, hconn⟩ := h
  have hinv := hconn c hc
  obtain ⟨k, hk⟩ := hinv.told hcut
  rw [hc, mark] at hfirst hsub
  refine ⟨told ++ [c.sub.taken.take k], ?_,
    List.rel_append hpast (List.Forall₂.cons hk List.Forall₂.nil)⟩
  rw [List.flatten_append, List.flatten_singleton]
  have htook : (c.sub.taken.take k).Sublist ((s.log.take c.sub.next).drop c.sub.first) := by
    rw [List.drop_take]
    exact (List.take_sublist _ _).trans hinv.sound.sublist
  have hall : ((s.log.take c.sub.first).drop first ++
      (s.log.take c.sub.next).drop c.sub.first).Sublist (s.log.drop first) := by
    rw [drop_take_append s.log hfirst hinv.sound.first_le]
    exact (List.take_sublist _ _).drop _
  exact (hsub.append htook).trans hall

theorem failed_inv (h : Inv first s) (n : ℕ) : Inv first (step files s (.failed n)) := by
  unfold step
  simp only
  split
  · exact h
  · next c hc =>
    split
    · have hcut : (c.cut n).socket <+: c.socket ++ c.writing.getD [] :=
        (List.prefix_append_right_inj _).2 (List.take_prefix _ _)
      obtain ⟨told, hsub, htold⟩ := h.told_conn hc hcut
      refine ⟨h.first_le.trans h.mark_le, le_rfl, h.whole, ⟨told, ?_, htold⟩, nofun⟩
      show told.flatten.Sublist ((s.log.take s.log.length).drop first)
      rw [List.take_length]
      exact hsub
    · exact h

theorem step_inv [PlainFmt F] (h : Inv first s) (e : Event F) : Inv first (step files s e) := by
  cases e with
  | row r m => exact row_inv h r m
  | dial => exact dial_inv h
  | recv =>
    refine h.mapConn (SbsConn.recv_first s.log) fun c hc => ?_
    have hfirst := h.first_le
    rw [hc] at hfirst
    exact SbsConn.recv_inv (h.conn c hc) hfirst h.whole
  | keepalive =>
    exact h.mapConn (fun c => by rw [SbsConn.keepalive_sub]) fun c hc =>
      SbsConn.keepalive_inv (h.conn c hc)
  | wrote => exact h.mapConn (fun _ => rfl) fun c hc => SbsConn.wrote_inv (h.conn c hc)
  | failed n => exact failed_inv h n

omit [F64 F] in
/-- What has come of all connections is, in order, among what was published. -/
theorem Inv.told (h : Inv first s) : ∃ told : List (List Published),
    told.flatten.Sublist (s.log.drop first) ∧ List.Forall₂ SbsConn.Told s.conns told := by
  unfold conns
  cases hc : s.conn with
  | none =>
    obtain ⟨told, hsub, hpast⟩ := h.past
    rw [hc, mark, List.take_length] at hsub
    refine ⟨told, hsub, ?_⟩
    rw [Option.toList_none, List.append_nil]
    exact hpast
  | some c => exact h.told_conn hc (List.prefix_append _ _)

/-! ## Catching up -/

/-- A waiting writer that takes a row writes it as one record more. -/
theorem round_conn {c : SbsConn} (h : c.Inv s.log) (hc : s.conn = some c)
    (hidle : c.writing = none) (hlag : ¬ c.sub.Lags maxKept s.log) {p : Published}
    (hp : s.log[c.sub.next]? = some p) (hwhole : p.Whole) :
    ∃ c' : SbsConn, (step files (step files s .recv) .wrote).conn = some c' ∧
      c'.writing = none ∧ c'.sub.next = c.sub.next + 1 ∧
      c'.records.map some = c.records.map some ++ [p.sbsBody] := by
  obtain ⟨body, hline, hbody, hmsg⟩ := hwhole
  obtain ⟨bodies, hnl, htext, -⟩ := h.text
  rw [hidle, Option.getD_none, List.append_nil] at htext
  have hrecv : c.sub.recv maxKept s.log =
      ({ c.sub with next := c.sub.next + 1, taken := c.sub.taken ++ [p] }, some p) := by
    rcases Receiver.recv_cases maxKept s.log c.sub with ⟨hl, -⟩ | ⟨-, hn, -⟩ | ⟨-, p', hp', he⟩
    · exact absurd hl hlag
    · rw [hp] at hn
      cases hn
    · rw [hp] at hp'
      cases hp'
      exact he
  have hround : (step files (step files s .recv) .wrote).conn =
      some { sub := { c.sub with next := c.sub.next + 1, taken := c.sub.taken ++ [p] }
             writing := none
             socket := c.socket ++ p.sbsLine.toList } := by
    unfold step
    simp only
    rw [hc]
    unfold SbsConn.recv SbsConn.wrote
    simp only [Option.map_some, hidle, Option.isSome_none, Bool.false_eq_true, if_false, hrecv,
      Option.getD_some]
  refine ⟨_, hround, rfl, rfl, ?_⟩
  unfold SbsConn.records
  simp only
  rw [htext, hline, ← TextLine.unlines_concat,
    TextLine.lines_unlines (newline_notMem_concat hnl hbody), TextLine.lines_unlines hnl,
    List.filter_append, List.map_append]
  simp [hmsg, Published.sbsBody_eq hline hbody]

/-- A connection that has not fallen too far behind delivers all it has yet to take. -/
theorem rounds_conn [PlainFmt F] {n : ℕ} {c : SbsConn} (h : Inv first s) (hc : s.conn = some c)
    (hidle : c.writing = none) (hn : c.sub.next + n = s.log.length) (hlag : n ≤ maxKept) :
    ∃ c' : SbsConn, (Run.exec (step files) s (rounds F n)).conn = some c' ∧
      c'.records.map some = c.records.map some ++
        (s.log.drop c.sub.next).map Published.sbsBody := by
  induction n generalizing s c with
  | zero =>
    refine ⟨c, hc, ?_⟩
    rw [List.drop_eq_nil_of_le (by omega), List.map_nil, List.append_nil]
  | succ n ih =>
    have hlt : c.sub.next < s.log.length := by omega
    have hp : s.log[c.sub.next]? = some s.log[c.sub.next] := List.getElem?_eq_getElem hlt
    have hfirst := h.first_le
    rw [hc] at hfirst
    have hwhole := h.whole _ (SbsConn.recv_mem (h.conn c hc) hp hfirst)
    have hkeeps : ¬ c.sub.Lags maxKept s.log := by
      unfold Receiver.Lags
      omega
    obtain ⟨c1, hc1, hidle1, hnext1, hrec1⟩ :=
      @round_conn F _ files s c (h.conn c hc) hc hidle hkeeps _ hp hwhole
    have hinv : Inv first (step files (step files s .recv) .wrote) := step_inv (step_inv h _) _
    have hlog : (step files (step files s .recv) .wrote).log = s.log := rfl
    obtain ⟨c', hc', hrec'⟩ := ih hinv hc1 hidle1 (by rw [hnext1, hlog]; omega) (by omega)
    refine ⟨c', hc', ?_⟩
    rw [hrec', hrec1, hnext1, hlog, List.append_assoc, List.singleton_append,
      List.drop_eq_getElem_cons hlt, List.map_cons]

/-- **The consumer hears each fix at most once, and in order.** In every run, whichever writes fail
    and wherever, the records of the connections one after the other are lines of rows published
    since the start, in the order of publication. A connection that waits and has not fallen more
    than the channel's length behind has, with one row taken and written after the other, all rows
    published up to then that it had not taken. -/
theorem sbs_delivered [PlainFmt F] (files : OutFiles) (task : OutTask F) (es : List (Event F)) :
    (∃ told : List (List Published),
      told.flatten.Sublist ((Run.exec (step files) (start task) es).log.drop
        task.published.length) ∧
      List.Forall₂ SbsConn.Told (Run.exec (step files) (start task) es).conns told) ∧
    ∀ c, (Run.exec (step files) (start task) es).conn = some c → c.writing = none →
      ¬ c.sub.Lags maxKept (Run.exec (step files) (start task) es).log →
      ∃ c', (Run.exec (step files) (start task) (es ++ rounds F
          ((Run.exec (step files) (start task) es).log.length - c.sub.next))).conn = some c' ∧
        c'.records.map some = c.records.map some ++
          ((Run.exec (step files) (start task) es).log.drop c.sub.next).map Published.sbsBody := by
  have h : Inv task.published.length (Run.exec (step files) (start task) es) :=
    Run.invariant (I := Inv task.published.length) (fun _ e hs => step_inv hs e)
      (start_inv task) es
  refine ⟨h.told, fun c hc hidle hlag => ?_⟩
  have hnext := (h.conn c hc).sound.next_le
  unfold Receiver.Lags at hlag
  rw [Run.exec_append]
  exact rounds_conn h hc hidle (by omega) (by omega)

/-- A connection that fails in its first newline, the next one, and a row. -/
def twice (m : EmittedMsg ℚ) : List (Event ℚ) :=
  [.dial, .keepalive, .failed 0, .dial, .row (Router.new [] 10 500) m]

/-- The feed after `twice`. -/
def afterTwice (m : EmittedMsg ℚ) : SbsFeed ℚ :=
  Run.exec (step ⟨false, false, false⟩) (start OutTask.start) (twice m)

theorem log_afterTwice {m : EmittedMsg ℚ} {row : OutRow ℚ} (h : m.msg = .fix row) :
    (afterTwice m).log = [row.published] := by
  have hpub : (OutTask.start : OutTask ℚ).memory.publishes (Router.new [] 10 500) row = true := by
    unfold TwinMemory.publishes OutTask.start TwinMemory.empty
    simp only [Finmap.lookup_empty]
    rfl
  show (OutTask.step ⟨false, false, false⟩ OutTask.start (Router.new [] 10 500, m.msg)).published.map
    OutRow.published = _
  rw [h, OutTask.step_publishes hpub]
  rfl

theorem conn_afterTwice (m : EmittedMsg ℚ) : (afterTwice m).conn = some (SbsConn.opened []) := rfl

/-- The row that the shard of five reports emits is told on the second connection. -/
theorem sbs_delivered_twice :
    ∃ (m : EmittedMsg ℚ) (row : OutRow ℚ) (c : SbsConn), m.msg = .fix row ∧
      (∃ told : List (List Published), told.flatten.Sublist [row.published] ∧
        List.Forall₂ SbsConn.Told (afterTwice m).conns told) ∧
      (Run.exec (step ⟨false, false, false⟩) (start OutTask.start) (twice m ++ rounds ℚ 1)).conn =
        some c ∧
      c.records.map some = [row.published.sbsBody] := by
  obtain ⟨e, row, -, hrow⟩ := Sample.exists_fix
  let m : EmittedMsg ℚ := ⟨_, _, e, .fix row, hrow⟩
  have hlog : (afterTwice m).log = [row.published] := log_afterTwice rfl
  obtain ⟨htold, hrest⟩ := sbs_delivered ⟨false, false, false⟩ OutTask.start (twice m)
  have hkept : ¬ (SbsConn.opened []).sub.Lags maxKept (afterTwice m).log := by
    rw [hlog]
    exact not_lt.2 (Nat.le_add_left 1 1023)
  obtain ⟨c, hc, hrecords⟩ := hrest _ (conn_afterTwice m) rfl hkept
  refine ⟨m, row, c, rfl, ?_, ?_, ?_⟩
  · have hdrop : (afterTwice m).log.drop 0 = [row.published] := hlog
    rw [← hdrop]
    exact htold
  · have hone : (afterTwice m).log.length - (SbsConn.opened []).sub.next = 1 := by
      rw [hlog]
      rfl
    rw [← hone]
    exact hc
  · rw [hrecords]
    show [] ++ ((afterTwice m).log.drop 0).map Published.sbsBody = _
    rw [hlog]
    rfl

end SbsFeed

end Mlatd
