/-
  A connection's reader (main.rs, read_zlib_frame and the message loop of handle_client): how the
  bytes of a feeder become the lines that `process_line_tx` gets.

  The socket is the bytes that arrive before it ends, however they were split on the way. A turn
  of the loop takes one line, or one frame with all its lines. The loop may be stopped between two
  turns from outside, when the connection is idle or replaced: that is `read` with fewer turns.

  `cut_prefix`: whatever the bytes, a connection cut short hands on a prefix of what it would have.
  `Framed.items`: short batches of lines, framed by one encoder, are read frame by frame.
-/
import Mlatd.Framing.RoundTrip
import Mlatd.Lib.Incremental
import Mlatd.Server

namespace Mlatd

open Streaming Incremental

def newline : UInt8 := 10

/-- The longest line of a connection without compression. -/
def maxLine : ℕ := 256 * 1024

/-- One zlib frame, length header included, and what follows it; none at the end of the stream. -/
def readZlibFrame : List UInt8 → Option (List UInt8 × List UInt8)
  | hi :: lo :: rd =>
    let want := fromBeBytes hi lo
    if want ≤ rd.length then some (hi :: lo :: rd.take want, rd.drop want) else none
  | _ => none

/-- `rd.take(limit).read_until(b'\n')`: the bytes read, and what follows them. -/
def readUntil : ℕ → List UInt8 → List UInt8 × List UInt8
  | limit + 1, b :: rd =>
    if b = newline then ([b], rd)
    else let p := readUntil limit rd; (b :: p.1, p.2)
  | _, rd => ([], rd)

/-- The lines of a frame, the empty ones left out. -/
def splitLines (chunk : List UInt8) : List (List UInt8) :=
  (chunk.splitOn newline).filter fun line => !line.isEmpty

/-- One turn of the message loop: the lines for `process_line_tx`, or why the loop ends. The
    state is the decoder of a compressed connection. -/
def readTurn (z : Codec) (zdec : Option z.Inflate) (rd : List UInt8) :
    Except Exit (List (List UInt8) × Option z.Inflate × List UInt8) :=
  match zdec with
  | none =>
    let p := readUntil maxLine rd
    if p.1 = [] then .error .closed
    else if p.1.getLast? ≠ some newline then .error .overlong
    else .ok ([p.1], none, p.2)
  | some dec =>
    match readZlibFrame rd with
    | none => .error .closed
    | some (payload, rd) =>
      match decodeFrame z dec payload with
      | .error _ => .error .undecodable
      | .ok (chunk, dec) => .ok (splitLines chunk, some dec, rd)

/-- The lines of the first `n` turns, and why the loop ended if it did. -/
def readLines (z : Codec) (n : ℕ) (zdec : Option z.Inflate) (rd : List UInt8) :
    List (List UInt8) × Option Exit :=
  let p := read (readTurn z) n zdec rd
  (p.1.flatten, p.2)

/-! ## One turn -/

theorem readUntil_append {limit : ℕ} {rd : List UInt8}
    (h : (readUntil limit rd).1.getLast? = some newline) (more : List UInt8) :
    readUntil limit (rd ++ more) = ((readUntil limit rd).1, (readUntil limit rd).2 ++ more) := by
  induction limit generalizing rd with
  | zero => simp [readUntil] at h
  | succ limit ih =>
    cases rd with
    | nil => simp [readUntil] at h
    | cons b rd =>
      rw [List.cons_append]
      simp only [readUntil] at h ⊢
      split
      · rfl
      · next hb =>
        rw [if_neg hb] at h
        simp only at h
        have hlast : (readUntil limit rd).1.getLast? = some newline := by
          cases hp : (readUntil limit rd).1 with
          | nil =>
            rw [hp] at h
            exact absurd (Option.some.inj h) hb
          | cons c cs => rwa [hp, List.getLast?_cons_cons] at h
        rw [ih hlast]

theorem readUntil_line {limit : ℕ} {line : List UInt8} (h : newline ∉ line)
    (hlen : line.length < limit) : readUntil limit (line ++ [newline]) = (line ++ [newline], []) := by
  induction line generalizing limit with
  | nil =>
    obtain ⟨limit, rfl⟩ : ∃ k, limit = k + 1 := ⟨limit - 1, by omega⟩
    rfl
  | cons b line ih =>
    obtain ⟨limit, rfl⟩ : ∃ k, limit = k + 1 := ⟨limit - 1, by omega⟩
    rw [List.mem_cons, not_or] at h
    rw [List.length_cons] at hlen
    rw [List.cons_append, readUntil, if_neg (Ne.symm h.1), ih h.2 (by omega)]

theorem readUntil_partial {limit : ℕ} {line : List UInt8} (h : newline ∉ line)
    (hlen : line.length ≤ limit) : readUntil limit line = (line, []) := by
  induction line generalizing limit with
  | nil => cases limit <;> rfl
  | cons b line ih =>
    obtain ⟨limit, rfl⟩ : ∃ k, limit = k + 1 := ⟨limit - 1, by rw [List.length_cons] at hlen; omega⟩
    rw [List.mem_cons, not_or] at h
    rw [List.length_cons] at hlen
    rw [readUntil, if_neg (Ne.symm h.1), ih h.2 (by omega)]

theorem readZlibFrame_append {rd frame rest : List UInt8} (h : readZlibFrame rd = some (frame, rest))
    (more : List UInt8) : readZlibFrame (rd ++ more) = some (frame, rest ++ more) := by
  match rd, h with
  | hi :: lo :: rd, h =>
    simp only [readZlibFrame] at h
    split at h
    · next hlen =>
      cases h
      simp only [List.cons_append, readZlibFrame, List.length_append]
      rw [if_pos (by omega), List.take_append_of_le_length hlen, List.drop_append_of_le_length hlen]
    · cases h

variable {z : Codec}

theorem readTurn_local : Local (readTurn z) := by
  intro zdec rd out zdec' rest h more
  cases zdec with
  | none =>
    simp only [readTurn] at h ⊢
    split at h
    · cases h
    · next hne =>
      split at h
      · cases h
      · next hlast =>
        rw [not_not] at hlast
        rw [readUntil_append hlast]
        cases h
        simp only
        rw [if_neg hne, if_neg (not_not.2 hlast)]
  | some dec =>
    simp only [readTurn] at h ⊢
    cases hf : readZlibFrame rd with
    | none => simp [hf] at h
    | some p =>
      obtain ⟨frame, rest'⟩ := p
      rw [hf] at h
      rw [readZlibFrame_append hf more]
      simp only at h ⊢
      cases hd : decodeFrame z dec frame with
      | error e => simp [hd] at h
      | ok q =>
        rw [hd] at h
        cases h
        rfl

/-! ## A cut anywhere -/

/-- **A connection cut short hands on a prefix of its lines**: whatever the bytes and the mode, no
    line that the whole stream would not have given at that place. -/
theorem cut_prefix (zdec : Option z.Inflate) (sent more : List UInt8) (n k : ℕ) :
    (readLines z n zdec sent).1 <+: (readLines z (n + k) zdec (sent ++ more)).1 := by
  obtain ⟨t, ht⟩ := (read_mono (Nat.le_add_right n k) zdec sent).trans
    (read_initial readTurn_local (n + k) zdec sent more)
  refine ⟨t.flatten, ?_⟩
  unfold readLines
  simp only
  rw [← List.flatten_append, ht]

/-! ## Frames -/

/-- Lines as a client writes them. -/
def lineText (lines : List (List UInt8)) : List UInt8 := lines.flatMap (· ++ [newline])

/-- A line that its newline ends. -/
def IsLine (line : List UInt8) : Prop := line ≠ [] ∧ newline ∉ line

theorem lineText_eq_intercalate (lines : List (List UInt8)) :
    lineText lines = [newline].intercalate (lines ++ [[]]) := by
  induction lines with
  | nil => rfl
  | cons line lines ih =>
    unfold lineText at ih ⊢
    rw [List.flatMap_cons, ih]
    cases lines with
    | nil => simp [List.intercalate]
    | cons l ls => simp [List.intercalate_cons_cons]

/-- The lines of a batch are what the reader splits it into. -/
theorem splitLines_lineText {lines : List (List UInt8)} (h : ∀ line ∈ lines, IsLine line) :
    splitLines (lineText lines) = lines := by
  have hsplit : (lineText lines).splitOn newline = lines ++ [[]] := by
    rw [lineText_eq_intercalate]
    refine List.splitOn_intercalate newline (fun line hline => ?_) (by simp)
    rcases List.mem_append.1 hline with hm | hm
    · exact (h line hm).2
    · rw [List.mem_singleton.1 hm]
      exact List.not_mem_nil
  unfold splitLines
  rw [hsplit, List.filter_append, List.filter_eq_self.2 fun line hline => ?_]
  · simp
  · simp [(h line hline).1]

theorem readZlibFrame_of_decode {dec dec' : z.Inflate} {frame chunk : List UInt8}
    (h : decodeFrame z dec frame = .ok (chunk, dec')) :
    readZlibFrame frame = some (frame, []) ∧
      ∀ p, p <+: frame → p ≠ frame → readZlibFrame p = none := by
  cases frame with
  | nil => cases h
  | cons hi frame =>
    cases frame with
    | nil => cases h
    | cons lo payload =>
      simp only [decodeFrame] at h
      split at h
      · cases h
      · next hlen =>
        rw [not_not] at hlen
        refine ⟨?_, fun p hp hne => ?_⟩
        · simp only [readZlibFrame]
          rw [if_pos hlen.ge, ← hlen, List.take_length, List.drop_length]
        · cases p with
          | nil => rfl
          | cons a p =>
            cases p with
            | nil => rfl
            | cons b q =>
              obtain ⟨rfl, hp1⟩ := List.cons_prefix_cons.1 hp
              obtain ⟨rfl, hp2⟩ := List.cons_prefix_cons.1 hp1
              have hlt : q.length < payload.length :=
                Nat.lt_of_le_of_ne hp2.length_le fun heq => hne (by rw [hp2.eq_of_length heq])
              simp only [readZlibFrame]
              rw [if_neg (by omega)]

/-- Frames that decode, one item each. -/
theorem frames_items {dec : z.Inflate} {frames batches : List (List UInt8)}
    (h : decodeAll z dec frames = .ok batches) :
    Items (readTurn z) (fun _ => Exit.closed) (some dec) frames (batches.map splitLines) := by
  induction frames generalizing dec batches with
  | nil =>
    cases h
    exact .nil rfl
  | cons frame frames ih =>
    obtain ⟨chunk, chunks, rfl⟩ : ∃ chunk chunks, batches = chunk :: chunks := by
      rw [decodeAll] at h
      cases hd : decodeFrame z dec frame with
      | error e =>
        rw [hd] at h
        cases h
      | ok p =>
        rw [hd] at h
        simp only at h
        cases hall : decodeAll z p.2 frames with
        | error e =>
          rw [hall] at h
          cases h
        | ok ls =>
          rw [hall] at h
          cases h
          exact ⟨p.1, ls, rfl⟩
    obtain ⟨dec', hd, hall⟩ := decodeAll_cons_eq_ok.1 h
    obtain ⟨hwhole, hshort⟩ := readZlibFrame_of_decode hd
    refine .cons ⟨?_, fun {p} hp hne => ?_⟩ (ih hall)
    · simp only [readTurn, hwhole, hd]
    · simp only [readTurn, hshort p hp hne]

/-- Batches of lines that one encoder made into frames, none longer than the decoder's buffer. -/
structure Framed (z : Codec) (batches : List (List (List UInt8))) (frames : List (List UInt8)) :
    Prop where
  lines : ∀ batch ∈ batches, ∀ line ∈ batch, IsLine line
  encoded : Encoded z z.newDeflate (batches.map lineText) frames
  short : ∀ batch ∈ batches, (lineText batch).length ≤ 64 * 1024

theorem Encoded.length_eq {s : z.Deflate} {chunks frames : List (List UInt8)}
    (h : Encoded z s chunks frames) : frames.length = chunks.length := by
  induction h with
  | nil => rfl
  | cons _ _ ih => rw [List.length_cons, List.length_cons, ih]

theorem Framed.length_eq {batches : List (List (List UInt8))} {frames : List (List UInt8)}
    (h : Framed z batches frames) : frames.length = batches.length := by
  rw [h.encoded.length_eq, List.length_map]

theorem Framed.items {plain : List UInt8 → List UInt8} (hz : z.Contract plain)
    {batches : List (List (List UInt8))} {frames : List (List UInt8)} (h : Framed z batches frames) :
    Items (readTurn z) (fun _ => Exit.closed) (some z.newInflate) frames batches := by
  have hsplit : (batches.map lineText).map splitLines = batches := by
    rw [List.map_map]
    exact (List.map_congr_left fun batch hbatch =>
      splitLines_lineText (h.lines batch hbatch)).trans (List.map_id' batches)
  have hitems := frames_items (decodeAll_of_short hz h.encoded (List.forall_mem_map.2 h.short))
  rwa [hsplit] at hitems

end Mlatd
