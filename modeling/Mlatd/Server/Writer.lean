/-
  The writer task of a zlib2 connection (main.rs, handle_client): the lines for the feeder pass a
  bounded channel, are batched, and leave as frames.

  Senders put lines into the channel; a line that finds it full is dropped, or its sender waits,
  and neither changes the channel. The task takes lines as they come, encodes a batch when it has
  32 KiB of it or at the tick of the second, and once all senders are gone and the channel is
  empty it encodes what is left. Each event is one turn of one party and a run is any order of
  them. `accepted` is the ghost of the lines that the channel took.

  An encoder that fails leaves its compressor in a state the source does not say: the event of the
  last flush brings one. Connections without a compressed downlink write each line as it is, and
  are left out.

  `downlink_delivers`: where no line is over 32 KiB and the encoder does not fail, the feeder decodes,
  in every state of every run, a prefix of the lines the channel took, in order and without a gap;
  and all of them once the task has finished.
-/
import Mlatd.Framing.Reader
import Mlatd.Lib.Run

namespace Mlatd

open Streaming

/-- The most lines the channel holds. -/
def maxQueued : ℕ := 256

/-- A batch this long is written without waiting for the tick. -/
def batchBytes : ℕ := 32 * 1024

namespace Downlink

/-- Where the task stands. -/
inductive Phase where
  | running
  /-- out of the loop, the channel closed -/
  | flushing
  /-- out of the loop, the encoder failed -/
  | spoilt
  | finished
  /-- the socket gets nothing more -/
  | broken
  deriving DecidableEq

end Downlink

structure Downlink (z : Codec) where
  queue : List (List UInt8)
  /-- A sender is left. -/
  senders : Bool
  enc : z.Deflate
  batch : List UInt8
  phase : Downlink.Phase
  /-- The frames written to the socket. -/
  frames : List (List UInt8)
  accepted : List (List UInt8)

namespace Downlink

variable {z : Codec}

def start (z : Codec) : Downlink z where
  queue := []
  senders := true
  enc := z.newDeflate
  batch := []
  phase := .running
  frames := []
  accepted := []

/-- `fuel` is how often the compressor may be called, `ok` whether the socket takes the frame. -/
inductive Event (z : Codec) where
  | put (line : List UInt8)
  /-- The last sender is dropped. -/
  | hangUp
  | recv (fuel : ℕ) (ok : Bool)
  | tick (fuel : ℕ) (ok : Bool)
  /-- What the loop left behind; `spoilt` is the compressor as a failed call left it. -/
  | flush (spoilt : z.Deflate) (fuel : ℕ) (ok : Bool)
  /-- The connection does not wait longer for the task. -/
  | abort

/-- The batch encoded and written, in the loop. -/
def emit (d : Downlink z) (fuel : ℕ) (ok : Bool) : Downlink z :=
  match encodeFrame z fuel d.enc d.batch with
  | none => { d with phase := .broken }
  | some (.error _) => { d with phase := .spoilt }
  | some (.ok (frame, enc)) =>
    if ok then { d with enc := enc, batch := [], frames := d.frames ++ [frame] }
    else { d with enc := enc, batch := [], phase := .broken }

def step (d : Downlink z) : Event z → Downlink z
  | .put line =>
    if d.senders ∧ d.phase ≠ .finished ∧ d.phase ≠ .broken ∧ d.queue.length < maxQueued then
      { d with queue := d.queue ++ [line], accepted := d.accepted ++ [line] }
    else d
  | .hangUp => { d with senders := false }
  | .recv fuel ok =>
    if d.phase ≠ .running then d
    else
      match d.queue with
      | [] => if d.senders then d else { d with phase := .flushing }
      | line :: queue =>
        let d := { d with queue := queue, batch := d.batch ++ line }
        if d.batch.length < batchBytes then d else d.emit fuel ok
  | .tick fuel ok => if d.phase ≠ .running ∨ d.batch = [] then d else d.emit fuel ok
  | .flush spoilt fuel ok =>
    match d.phase with
    | .flushing =>
      if d.batch = [] then { d with phase := .finished }
      else { d.emit fuel ok with
        phase := if (d.emit fuel ok).phase = .flushing then .finished else .broken }
    | .spoilt => { { d with enc := spoilt }.emit fuel ok with phase := .broken }
    | _ => d
  | .abort => { d with phase := .broken }

/-! ## What a step encodes -/

/-- The batch that an event has encoded in the loop or after it, and with what fuel. -/
def encodes (d : Downlink z) : Event z → Option (ℕ × List UInt8)
  | .recv fuel _ =>
    match d.phase, d.queue with
    | .running, line :: _ =>
      if (d.batch ++ line).length < batchBytes then none else some (fuel, d.batch ++ line)
    | _, _ => none
  | .tick fuel _ => if d.phase ≠ .running ∨ d.batch = [] then none else some (fuel, d.batch)
  | .flush _ fuel _ => if d.phase ≠ .flushing ∨ d.batch = [] then none else some (fuel, d.batch)
  | _ => none

/-- A line put is no longer than a batch, and the encoder does not fail. -/
structure Sound (d : Downlink z) (e : Event z) : Prop where
  line : ∀ l, e = .put l → l.length ≤ batchBytes
  encoded : ∀ fuel chunk, d.encodes e = some (fuel, chunk) →
    ∃ frame enc, encodeFrame z fuel d.enc chunk = some (.ok (frame, enc))

/-! ## Chunks encoded so far -/

/-- Chunks that one encoder made into frames, and the encoder after them. -/
inductive EncodedTo (z : Codec) (s : z.Deflate) :
    List (List UInt8) → List (List UInt8) → z.Deflate → Prop where
  | nil : EncodedTo z s [] [] s
  | snoc {s' s'' : z.Deflate} {chunks frames : List (List UInt8)} {chunk frame : List UInt8}
      {fuel : ℕ} : EncodedTo z s chunks frames s' →
      encodeFrame z fuel s' chunk = some (.ok (frame, s'')) →
      EncodedTo z s (chunks ++ [chunk]) (frames ++ [frame]) s''

theorem EncodedTo.append {s s' : z.Deflate} {chunks frames : List (List UInt8)}
    (h : EncodedTo z s chunks frames s') {chunks' frames' : List (List UInt8)}
    (h' : Encoded z s' chunks' frames') : Encoded z s (chunks ++ chunks') (frames ++ frames') := by
  induction h generalizing chunks' frames' with
  | nil => exact h'
  | snoc _ hframe ih =>
    rw [List.append_assoc, List.append_assoc]
    exact ih (.cons hframe h')

theorem EncodedTo.encoded {s s' : z.Deflate} {chunks frames : List (List UInt8)}
    (h : EncodedTo z s chunks frames s') : Encoded z s chunks frames := by
  have h1 := h.append (.nil s')
  rwa [List.append_nil, List.append_nil] at h1

/-! ## The invariant -/

/-- The frames written are those of `chunks`; what the channel took is the chunks, then the batch,
    then the queue, as long as the task runs. -/
structure Inv (d : Downlink z) (chunks : List (List UInt8)) : Prop where
  encoded : ∃ s, EncodedTo z z.newDeflate chunks d.frames s ∧
    (d.phase = .running ∨ d.phase = .flushing → s = d.enc)
  short : ∀ chunk ∈ chunks, chunk.length ≤ 64 * 1024
  batch : d.batch.length < batchBytes
  lines : ∀ l ∈ d.queue, l.length ≤ batchBytes
  text : d.phase = .running ∨ d.phase = .flushing →
    d.accepted.flatten = chunks.flatten ++ (d.batch ++ d.queue.flatten)
  pre : chunks.flatten <+: d.accepted.flatten
  drained : d.phase = .flushing ∨ d.phase = .finished → d.queue = [] ∧ d.senders = false
  all : d.phase = .finished → chunks.flatten = d.accepted.flatten
  sound : d.phase ≠ .spoilt

theorem nil_lt_batchBytes : ([] : List UInt8).length < batchBytes := by decide

theorem start_inv (z : Codec) : Inv (start z) [] where
  encoded := ⟨z.newDeflate, .nil, fun _ => rfl⟩
  short _ hm := absurd hm List.not_mem_nil
  batch := nil_lt_batchBytes
  lines l hl := by cases hl
  text _ := rfl
  pre := List.prefix_refl _
  drained h := by rcases h with h | h <;> cases h
  all h := by cases h
  sound := nofun

theorem EncodedTo.length_eq {s s' : z.Deflate} {chunks frames : List (List UInt8)}
    (h : EncodedTo z s chunks frames s') : frames.length = chunks.length := h.encoded.length_eq

/-- A batch written: it moves to the chunks. -/
theorem Inv.write {d : Downlink z} {chunks : List (List UInt8)} (h : Inv d chunks)
    {batch frame : List UInt8} {queue : List (List UInt8)} {fuel : ℕ} {enc : z.Deflate}
    (hloop : d.phase = .running ∨ d.phase = .flushing)
    (htext : d.batch ++ d.queue.flatten = batch ++ queue.flatten)
    (hqueue : queue ⊆ d.queue) (hbatch : batch.length ≤ 64 * 1024)
    (hframe : encodeFrame z fuel d.enc batch = some (.ok (frame, enc)))
    {phase : Phase} (hphase : phase = d.phase ∨ phase = .finished ∧ queue = [] ∧ d.senders = false) :
    Inv { d with queue := queue, enc := enc, batch := [], frames := d.frames ++ [frame], phase := phase }
      (chunks ++ [batch]) where
  encoded := by
    obtain ⟨s, hs, heq⟩ := h.encoded
    rw [heq hloop] at hs
    exact ⟨enc, .snoc hs hframe, fun _ => rfl⟩
  short chunk hm := by
    rcases List.mem_append.1 hm with hm | hm
    · exact h.short chunk hm
    · rw [List.mem_singleton.1 hm]
      exact hbatch
  batch := nil_lt_batchBytes
  lines l hl := h.lines l (hqueue hl)
  text _ := by
    simp only [List.flatten_append, List.flatten_cons, List.flatten_nil, List.append_nil,
      List.nil_append, List.append_assoc]
    rw [h.text hloop, htext]
  pre := by
    rw [h.text hloop, htext, List.flatten_append, ← List.append_assoc]
    simp
  drained hd := by
    rcases hphase with rfl | ⟨-, h1, h2⟩
    · have h1 : d.phase = .flushing := by
        rcases hd with hd | hd
        · exact hd
        · rcases hloop with hl | hl <;> rw [hl] at hd <;> cases hd
      obtain ⟨h2, h3⟩ := h.drained (Or.inl h1)
      rw [h2] at hqueue
      exact ⟨List.subset_nil.1 hqueue, h3⟩
    · exact ⟨h1, h2⟩
  all hd := by
    rcases hphase with rfl | ⟨-, h1, -⟩
    · rcases hloop with hl | hl <;> rw [hl] at hd <;> cases hd
    · rw [h.text hloop, htext, h1]
      simp
  sound := by
    rcases hphase with rfl | ⟨rfl, -, -⟩
    · exact h.sound
    · exact nofun

/-- A task that stops keeps what it has written. -/
theorem Inv.broken {d : Downlink z} {chunks : List (List UInt8)} (h : Inv d chunks)
    {queue : List (List UInt8)} (hqueue : queue ⊆ d.queue) {batch : List UInt8}
    (hbatch : batch.length < batchBytes) (enc : z.Deflate) :
    Inv { d with queue := queue, enc := enc, batch := batch, phase := .broken } chunks where
  encoded := by
    obtain ⟨s, hs, -⟩ := h.encoded
    exact ⟨s, hs, fun hp => by rcases hp with hp | hp <;> cases hp⟩
  short := h.short
  batch := hbatch
  lines l hl := h.lines l (hqueue hl)
  text hp := by rcases hp with hp | hp <;> cases hp
  pre := h.pre
  drained hp := by rcases hp with hp | hp <;> cases hp
  all hp := by cases hp
  sound := nofun

/-- The batch of `recv`, `tick` or the last flush, encoded as `Sound` says. -/
theorem Inv.emitted {d : Downlink z} {chunks : List (List UInt8)} (h : Inv d chunks)
    {batch : List UInt8} {queue : List (List UInt8)} {fuel : ℕ} (ok : Bool)
    (hloop : d.phase = .running ∨ d.phase = .flushing)
    (htext : d.batch ++ d.queue.flatten = batch ++ queue.flatten)
    (hqueue : queue ⊆ d.queue) (hbatch : batch.length ≤ 64 * 1024)
    (hsound : ∃ frame enc, encodeFrame z fuel d.enc batch = some (.ok (frame, enc))) :
    ∃ chunks, Inv ({ d with queue := queue, batch := batch }.emit fuel ok) chunks := by
  obtain ⟨frame, enc, hframe⟩ := hsound
  unfold emit
  simp only [hframe]
  cases ok with
  | true => exact ⟨_, h.write hloop htext hqueue hbatch hframe (Or.inl rfl)⟩
  | false => exact ⟨chunks, h.broken hqueue nil_lt_batchBytes enc⟩

theorem Inv.put {d : Downlink z} {chunks : List (List UInt8)} (h : Inv d chunks) {line : List UInt8}
    (hline : line.length ≤ batchBytes) (hsenders : d.senders = true) (hdone : d.phase ≠ .finished) :
    Inv { d with queue := d.queue ++ [line], accepted := d.accepted ++ [line] } chunks where
  encoded := h.encoded
  short := h.short
  batch := h.batch
  lines l hl := by
    rcases List.mem_append.1 hl with hl | hl
    · exact h.lines l hl
    · rw [List.mem_singleton.1 hl]
      exact hline
  text hp := by
    simp only [List.flatten_append, List.flatten_cons, List.flatten_nil, List.append_nil]
    rw [h.text hp, List.append_assoc, List.append_assoc]
  pre := by
    rw [List.flatten_append]
    exact h.pre.trans (List.prefix_append _ _)
  drained hp := by
    rw [(h.drained hp).2] at hsenders
    cases hsenders
  all hp := absurd hp hdone
  sound := h.sound

theorem Inv.hangUp {d : Downlink z} {chunks : List (List UInt8)} (h : Inv d chunks) :
    Inv { d with senders := false } chunks where
  encoded := h.encoded
  short := h.short
  batch := h.batch
  lines := h.lines
  text := h.text
  pre := h.pre
  drained hp := ⟨(h.drained hp).1, rfl⟩
  all := h.all
  sound := h.sound

/-- A line taken into a batch that is not full yet. -/
theorem Inv.gather {d : Downlink z} {chunks : List (List UInt8)} (h : Inv d chunks)
    (hrun : d.phase = .running) {line : List UInt8} {queue : List (List UInt8)}
    (hqueue : d.queue = line :: queue) (hlen : (d.batch ++ line).length < batchBytes) :
    Inv { d with queue := queue, batch := d.batch ++ line } chunks where
  encoded := h.encoded
  short := h.short
  batch := hlen
  lines l hl := h.lines l (by rw [hqueue]; exact List.mem_cons_of_mem _ hl)
  text hp := by
    simp only
    rw [h.text hp, hqueue, List.flatten_cons, List.append_assoc]
  pre := h.pre
  drained hp := by
    rw [hrun] at hp
    rcases hp with hp | hp <;> cases hp
  all hp := h.all hp
  sound := h.sound

theorem Inv.leaveLoop {d : Downlink z} {chunks : List (List UInt8)} (h : Inv d chunks)
    (hrun : d.phase = .running) (hqueue : d.queue = []) (hsenders : d.senders = false) :
    Inv { d with queue := [], phase := .flushing } chunks where
  encoded := by
    obtain ⟨s, hs, heq⟩ := h.encoded
    exact ⟨s, hs, fun _ => heq (Or.inl hrun)⟩
  short := h.short
  batch := h.batch
  lines l hl := by cases hl
  text _ := by
    have htext := h.text (Or.inl hrun)
    rwa [hqueue] at htext
  pre := h.pre
  drained _ := ⟨rfl, hsenders⟩
  all := nofun
  sound := nofun

theorem Inv.finish {d : Downlink z} {chunks : List (List UInt8)} (h : Inv d chunks)
    (hflush : d.phase = .flushing) (hbatch : d.batch = []) :
    Inv { d with phase := .finished } chunks where
  encoded := by
    obtain ⟨s, hs, -⟩ := h.encoded
    exact ⟨s, hs, fun hp => by rcases hp with hp | hp <;> cases hp⟩
  short := h.short
  batch := h.batch
  lines := h.lines
  text hp := by rcases hp with hp | hp <;> cases hp
  pre := h.pre
  drained _ := h.drained (Or.inl hflush)
  all _ := by
    have htext := h.text (Or.inr hflush)
    rw [hbatch, (h.drained (Or.inl hflush)).1] at htext
    simpa using htext.symm
  sound := nofun

theorem step_inv {d : Downlink z} {e : Event z} (h : ∃ chunks, Inv d chunks) (hs : Sound d e) :
    ∃ chunks, Inv (step d e) chunks := by
  obtain ⟨chunks, h⟩ := h
  cases e with
  | put line =>
    unfold step
    simp only
    split
    · next hc => exact ⟨chunks, h.put (hs.line line rfl) hc.1 hc.2.1⟩
    · exact ⟨chunks, h⟩
  | hangUp => exact ⟨chunks, h.hangUp⟩
  | abort => exact ⟨chunks, h.broken (List.Subset.refl _) h.batch d.enc⟩
  | recv fuel ok =>
    unfold step
    simp only
    split
    · exact ⟨chunks, h⟩
    · next hrun =>
      rw [not_not] at hrun
      cases hqueue : d.queue with
      | nil =>
        simp only
        split
        · exact ⟨chunks, h⟩
        · next hsenders => exact ⟨chunks, h.leaveLoop hrun hqueue (Bool.not_eq_true _ ▸ hsenders)⟩
      | cons line queue =>
        simp only
        split
        · next hlen => exact ⟨chunks, h.gather hrun hqueue hlen⟩
        · next hlen =>
          have hline := h.lines line (by rw [hqueue]; exact List.mem_cons_self)
          have hbatch := h.batch
          refine h.emitted ok (Or.inl hrun) (by rw [hqueue, List.flatten_cons, List.append_assoc])
            (by rw [hqueue]; exact List.subset_cons_self _ _) ?_ (hs.encoded fuel _ ?_)
          · rw [List.length_append]
            unfold batchBytes at hline hbatch
            omega
          · unfold encodes
            rw [hrun, hqueue]
            simp only
            rw [if_neg hlen]
  | tick fuel ok =>
    unfold step
    simp only
    split
    · exact ⟨chunks, h⟩
    · next hc =>
      have henc : d.encodes (.tick fuel ok) = some (fuel, d.batch) := if_neg hc
      rw [not_or, not_not] at hc
      have hbatch : d.batch.length ≤ 64 * 1024 := Nat.le_of_lt (Nat.lt_trans h.batch (by decide))
      exact h.emitted ok (Or.inl hc.1) rfl (List.Subset.refl _) hbatch (hs.encoded fuel _ henc)
  | flush spoilt fuel ok =>
    unfold step
    simp only
    cases hp : d.phase with
    | running => exact ⟨chunks, h⟩
    | finished => exact ⟨chunks, h⟩
    | broken => exact ⟨chunks, h⟩
    | spoilt => exact absurd hp h.sound
    | flushing =>
      simp only
      split
      · next hb => exact ⟨chunks, h.finish hp hb⟩
      · next hb =>
        have henc : d.encodes (.flush spoilt fuel ok) = some (fuel, d.batch) :=
          if_neg (by rw [hp]; simpa using hb)
        have hbatch : d.batch.length ≤ 64 * 1024 := Nat.le_of_lt (Nat.lt_trans h.batch (by decide))
        obtain ⟨frame, enc, hframe⟩ := hs.encoded fuel _ henc
        obtain ⟨hqueue, hsenders⟩ := h.drained (Or.inl hp)
        unfold emit
        simp only [hframe]
        cases ok with
        | true =>
          simp only [if_true, hp]
          exact ⟨_, h.write (Or.inr hp) rfl (List.Subset.refl _) hbatch hframe
            (Or.inr ⟨rfl, hqueue, hsenders⟩)⟩
        | false =>
          simp only [Bool.false_eq_true, if_false, reduceCtorEq]
          exact ⟨chunks, h.broken (List.Subset.refl _) nil_lt_batchBytes enc⟩

/-! ## What the feeder decodes -/

/-- **The downlink delivers.** In every state of a run whose lines are short and whose batches are
    encoded, the frames written decode to chunks that are, end to end, a prefix of the lines the
    channel took, and all of them once the task has finished. -/
theorem downlink_delivers {plain : List UInt8 → List UInt8} (hz : z.Contract plain)
    {es : List (Event z)} (hs : Run.Steps step Sound (start z) es) (n : ℕ) :
    ∃ chunks, decodeAll z z.newInflate (Run.exec step (start z) (es.take n)).frames = .ok chunks ∧
      chunks.flatten <+: (Run.exec step (start z) (es.take n)).accepted.flatten ∧
      ((Run.exec step (start z) (es.take n)).phase = .finished →
        chunks.flatten = (Run.exec step (start z) (es.take n)).accepted.flatten) := by
  obtain ⟨chunks, h⟩ := Run.invariant_of_steps (I := fun d => ∃ chunks, Inv d chunks)
    (fun d e hd he => step_inv hd he) ⟨[], start_inv z⟩ (hs.take n)
  obtain ⟨s, hencoded, -⟩ := h.encoded
  exact ⟨chunks, decodeAll_of_short hz hencoded.encoded h.short, h.pre, h.all⟩

/-- A line put and taken, and the connection closed. -/
def oneLine : List (Event (blockCodec [])) :=
  [.put [104, 10], .recv 1 true, .hangUp, .recv 1 true,
    .flush (([], []) : List UInt8 × List (List UInt8)) 1 true]

theorem oneLine_sound : Run.Steps step Sound (start (blockCodec [])) oneLine := by
  have hframe : encodeFrame (blockCodec []) 1 (([], []) : List UInt8 × List (List UInt8)) [104, 10] =
      some (.ok ([0, 3, 2, 104, 10], (([], []) : List UInt8 × List (List UInt8)))) :=
    encodeFrame_blockFrame (by decide)
  refine ⟨⟨?_, nofun⟩, ⟨nofun, ?_⟩, ⟨nofun, nofun⟩, ⟨nofun, ?_⟩, ⟨nofun, ?_⟩, trivial⟩
  · intro l h
    cases h
    decide
  · intro fuel chunk h
    cases h
  · intro fuel chunk h
    cases h
  · intro fuel chunk h
    cases h
    exact ⟨_, _, hframe⟩

theorem downlink_delivers_line : ∃ chunks,
    decodeAll (blockCodec []) (blockCodec []).newInflate
        (Run.exec step (start (blockCodec [])) (oneLine.take 5)).frames = .ok chunks ∧
      chunks.flatten <+: (Run.exec step (start (blockCodec [])) (oneLine.take 5)).accepted.flatten ∧
      ((Run.exec step (start (blockCodec [])) (oneLine.take 5)).phase = .finished →
        chunks.flatten =
          (Run.exec step (start (blockCodec [])) (oneLine.take 5)).accepted.flatten) :=
  downlink_delivers (blockCodec_contract []) oneLine_sound 5

end Downlink

end Mlatd
