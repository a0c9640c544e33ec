/-
  Whether a decoder returns the chunks that were encoded.

  The decoder leaves its loop when the frame is taken, also when its buffer is full and the
  decompressor owes output. What it owes then comes with the next frame. The buffer is never shorter
  than 64 KiB, so short chunks come back over every codec that keeps the contract
  (`decodeAll_of_short`); with a longer one among them there is a codec that keeps it and owes
  (`decodeAll_iff`).
-/
import Mlatd.Framing

namespace Mlatd

open Streaming

/-- What a frame adds to the stream. -/
def wire (frame : List UInt8) : List UInt8 := frame.drop 2 ++ syncTrailer

section
variable {z : Codec} {plain : List UInt8 → List UInt8}

/-! ## Encoding -/

theorem encodeLoop_last {fuel : ℕ} {s : z.Deflate} {rest out : List UInt8} {len : ℕ}
    {c : Call z.Deflate} (hc : z.compress s rest (len - out.length) = .ok c)
    (hend : c.status = .streamEnd ∨ rest.drop c.taken = [] ∧ endsWithSync (out ++ c.out) = true) :
    encodeLoop z (fuel + 1) s rest out len = some (.ok (out ++ c.out, c.state)) := by
  unfold encodeLoop
  rw [hc]
  simp only
  rw [if_pos hend]

theorem stripSync_eq_some {b payload : List UInt8} (h : stripSync b = some payload) :
    b = payload ++ syncTrailer := by
  unfold stripSync at h
  split at h
  · next hends =>
    cases h
    unfold endsWithSync at hends
    rw [Bool.and_eq_true, beq_iff_eq] at hends
    rw [← hends.2, List.take_append_drop]
  · cases h

/-- The loop feeds all its lines to a compressor that owes nothing and flushes them, if they are not
    more than 64 KiB. -/
theorem encodeLoop_flushed (hz : z.Contract plain) {fuel : ℕ} {s s' : z.Deflate}
    {rest out r fed before : List UInt8} {len : ℕ} (hs : z.Flushed s fed (before ++ out))
    (hrest : rest.length ≤ 64 * 1024) (hlen : rest.length + 1024 ≤ len - out.length)
    (h : encodeLoop z fuel s rest out len = some (.ok (r, s'))) :
    z.Flushed s' (fed ++ rest) (before ++ r) := by
  induction fuel generalizing s rest out len fed with
  | zero => cases h
  | succ fuel ih =>
    unfold encodeLoop at h
    cases hc : z.compress s rest (len - out.length) with
    | error e =>
      rw [hc] at h
      cases h
    | ok c =>
      have hroom := hz.compress_bound hs hrest hlen hc
      have htaken := hz.compress_room hs hc hroom
      have hcall := hs.call hc hroom
      rw [htaken, List.take_length, List.append_assoc] at hcall
      rw [hc] at h
      simp only [htaken, List.drop_length] at h
      split at h
      · cases h
        exact hcall
      · have hlen' : ([] : List UInt8).length + 1024 ≤ len + 4096 - (out ++ c.out).length := by
          rw [List.length_append, List.length_nil]
          omega
        have hnext := ih hcall (Nat.zero_le _) hlen' h
        rwa [List.append_nil] at hnext

/-- A frame is what the loop returned, and is read as that. -/
theorem encodeFrame_spec {fuel : ℕ} {s s' : z.Deflate} {chunk frame : List UInt8}
    (h : encodeFrame z fuel s chunk = some (.ok (frame, s'))) :
    encodeLoop z fuel s chunk [] (chunk.length + 1024) = some (.ok (wire frame, s')) ∧
      ∀ s, decodeFrame z s frame = decodeLoop z s (wire frame) [] outStep := by
  unfold encodeFrame at h
  split at h
  · cases h
  · cases h
  · next out s1 hl =>
    split at h
    · cases h
    · next payload hp =>
      split at h
      · cases h
      · next hlen =>
        cases h
        rw [stripSync_eq_some hp] at hl
        refine ⟨hl, fun s => ?_⟩
        have hwant : fromBeBytes (payload.length / 256).toUInt8 payload.length.toUInt8 =
            payload.length := by
          have hhi : (payload.length / 256).toUInt8.toNat = payload.length / 256 :=
            Nat.mod_eq_of_lt (by omega)
          have hlo : payload.length.toUInt8.toNat = payload.length % 256 := rfl
          unfold fromBeBytes
          omega
        unfold decodeFrame toBeBytes
        simp only [List.cons_append, List.nil_append]
        rw [hwant, if_neg (fun hne => hne rfl)]
        rfl

/-! ## Decoding -/

theorem decodeLoop_last {s : z.Inflate} {rest out : List UInt8} {len : ℕ} {c : Call z.Inflate}
    (hc : z.decompress s rest (len - out.length) = .ok c)
    (hend : c.status = .streamEnd ∨ rest.drop c.taken = []) :
    decodeLoop z s rest out len = .ok (out ++ c.out, c.state) := by
  rw [decodeLoop, hc]
  simp only
  rw [if_pos hend]

theorem decodeLoop_next {s : z.Inflate} {rest out : List UInt8} {len : ℕ} {c : Call z.Inflate}
    (hc : z.decompress s rest (len - out.length) = .ok c) (hstatus : c.status ≠ .streamEnd)
    (hrest : rest.drop c.taken ≠ []) (hlen : len < maxFrameOut) :
    decodeLoop z s rest out len =
      decodeLoop z c.state (rest.drop c.taken) (out ++ c.out) (len + outStep) := by
  rw [decodeLoop, hc]
  simp only
  rw [if_neg (not_or.2 ⟨hstatus, hrest⟩), if_neg (Nat.not_le.2 hlen)]

/-- A frame of up to 64 KiB, read by a decompressor that owes nothing, comes whole and leaves nothing
    owed. -/
theorem decodeLoop_of_short (hz : z.Contract plain) {s : z.Inflate}
    {taken given w chunk : List UInt8} (hs : z.Inflated s taken given) (heven : given = plain taken)
    (hw : z.Written (taken ++ w)) (hplain : plain (taken ++ w) = given ++ chunk)
    (hlen : chunk.length ≤ outStep) :
    ∃ s', decodeLoop z s w [] outStep = .ok (chunk, s') ∧
      z.Inflated s' (taken ++ w) (given ++ chunk) := by
  obtain ⟨c, hc⟩ := hz.decompress_ok hs w (outStep - ([] : List UInt8).length) hw
  obtain ⟨-, hout, hstatus⟩ := hz.decompress_call hs hw hc
  have hcall := hs.call hc
  have htake : taken ++ w.take c.taken <+: taken ++ w :=
    (List.prefix_append_right_inj taken).2 (List.take_prefix _ w)
  rw [List.length_nil, Nat.sub_zero] at hout
  rcases Nat.lt_or_eq_of_le hout with hroom | hfull
  · -- room is left: the call has taken and given all
    obtain ⟨htaken, hall⟩ := hz.decompress_room hs heven hw hc hroom
    obtain rfl : c.out = chunk := List.append_cancel_left (hall.trans hplain)
    have hdrop : w.drop c.taken = [] := by rw [htaken, List.drop_length]
    rw [htaken, List.take_length] at hcall
    exact ⟨c.state, decodeLoop_last hc (Or.inr hdrop), hcall⟩
  · -- the buffer is full of the chunk, which is no longer than it
    have hpre : given ++ c.out <+: given ++ chunk := by
      rw [← hplain]
      exact (hz.inflated_plain hcall).trans (hz.plain_mono htake)
    obtain rfl : c.out = chunk :=
      ((List.prefix_append_right_inj given).1 hpre).eq_of_length_le (by omega)
    by_cases hdrop : w.drop c.taken = []
    · have hall : w.take c.taken = w := List.take_of_length_le (List.drop_eq_nil_iff.1 hdrop)
      rw [hall] at hcall
      exact ⟨c.state, decodeLoop_last hc (Or.inr hdrop), hcall⟩
    · -- the rest of the frame has nothing more to give
      have hsplit : (taken ++ w.take c.taken) ++ w.drop c.taken = taken ++ w := by
        rw [List.append_assoc, List.take_append_drop]
      have heven' : given ++ c.out = plain (taken ++ w.take c.taken) := by
        refine (hz.inflated_plain hcall).eq_of_length_le ?_
        rw [← hplain]
        exact (hz.plain_mono htake).length_le
      rw [← hsplit] at hw
      obtain ⟨c', hc'⟩ := hz.decompress_ok hcall (w.drop c.taken) (outStep + outStep - c.out.length) hw
      have hcall' := hcall.call hc'
      have hpre' : given ++ c.out ++ c'.out <+: given ++ c.out := by
        have hle := hz.plain_mono ((List.prefix_append_right_inj (taken ++ w.take c.taken)).2
          (List.take_prefix c'.taken (w.drop c.taken)))
        rw [hsplit, hplain] at hle
        exact (hz.inflated_plain hcall').trans hle
      have hnil : c'.out = [] := by
        have hle := hpre'.length_le
        rw [List.length_append] at hle
        exact List.eq_nil_of_length_eq_zero (by omega)
      have hroom : c'.out.length < outStep + outStep - c.out.length := by
        rw [hnil, hfull, Nat.add_sub_cancel]
        exact Nat.zero_lt_of_lt (by decide : 0 < outStep)
      obtain ⟨htaken, -⟩ := hz.decompress_room hcall heven' hw hc' hroom
      have hdrop' : (w.drop c.taken).drop c'.taken = [] := by rw [htaken, List.drop_length]
      rw [htaken, List.take_length, hsplit, hnil, List.append_nil] at hcall'
      refine ⟨c'.state, ?_, hcall'⟩
      rw [decodeLoop_next hc hstatus hdrop (by decide), List.nil_append,
        decodeLoop_last hc' (Or.inr hdrop'), hnil, List.append_nil]

/-! ## A connection -/

theorem decodeAll_cons_eq_ok {s : z.Inflate} {frame chunk : List UInt8}
    {frames chunks : List (List UInt8)} :
    decodeAll z s (frame :: frames) = .ok (chunk :: chunks) ↔
      ∃ s', decodeFrame z s frame = .ok (chunk, s') ∧ decodeAll z s' frames = .ok chunks := by
  rw [decodeAll]
  cases decodeFrame z s frame with
  | error e => simp
  | ok p =>
    obtain ⟨lines, s'⟩ := p
    simp only
    cases hall : decodeAll z s' frames with
    | error e => simp [Except.map, hall]
    | ok ls =>
      simp only [Except.map, Except.ok.injEq, List.cons.injEq, Prod.mk.injEq]
      constructor
      · rintro ⟨rfl, rfl⟩
        exact ⟨s', ⟨rfl, rfl⟩, hall⟩
      · rintro ⟨_, ⟨rfl, rfl⟩, h⟩
        rw [hall] at h
        cases h
        exact ⟨rfl, rfl⟩

/-- From a moment when neither side owes anything. -/
theorem decodeAll_of_flushed (hz : z.Contract plain) {e : z.Deflate}
    {chunks frames : List (List UInt8)} (he : Encoded z e chunks frames) {s : z.Inflate}
    {fed stream : List UInt8} (hd : z.Flushed e fed stream) (hi : z.Inflated s stream fed)
    (hlen : ∀ chunk ∈ chunks, chunk.length ≤ 64 * 1024) : decodeAll z s frames = .ok chunks := by
  induction he generalizing s fed stream with
  | nil e => rfl
  | @cons e e' chunk frame chunks frames fuel hframe he ih =>
    rw [List.forall_mem_cons] at hlen
    obtain ⟨hencode, hdecode⟩ := encodeFrame_spec hframe
    have hd' : z.Flushed e' (fed ++ chunk) (stream ++ wire frame) :=
      encodeLoop_flushed hz (by rwa [List.append_nil]) hlen.1 (by simp) hencode
    obtain ⟨s', hloop, hi'⟩ := decodeLoop_of_short hz hi (hz.flushed_plain hd).symm ⟨e', _, hd'⟩
      (hz.flushed_plain hd') hlen.1
    exact decodeAll_cons_eq_ok.2 ⟨s', (hdecode s).trans hloop, ih hd' hi' hlen.2⟩

/-- Short chunks come back. -/
theorem decodeAll_of_short (hz : z.Contract plain) {chunks frames : List (List UInt8)}
    (he : Encoded z z.newDeflate chunks frames)
    (hlen : ∀ chunk ∈ chunks, chunk.length ≤ 64 * 1024) :
    decodeAll z z.newInflate frames = .ok chunks :=
  decodeAll_of_flushed hz he .new .new hlen

end

/-! ## A tail that comes late -/

section
open Blocks
variable {phrases : List (List UInt8)}

theorem endsWithSync_append (w : List UInt8) : endsWithSync (w ++ syncTrailer) = true := by
  have hlen : (w ++ syncTrailer).length = w.length + 4 := List.length_append
  unfold endsWithSync
  rw [hlen, Nat.add_sub_cancel, List.drop_left]
  simp

/-- A frame of blocks that the first buffer has room for. -/
theorem encodeFrame_blocks (all phrases : List (List UInt8)) {x : List UInt8}
    (hroom : (code phrases x).1.length ≤ x.length + 1020)
    (hmax : (code phrases x).1.length ≤ 65535) :
    encodeFrame (blockCodec all) 1 ([], phrases) x =
      some (.ok (toBeBytes (code phrases x).1.length ++ (code phrases x).1,
        (([], (code phrases x).2) : List UInt8 × List (List UInt8)))) := by
  have hc : (blockCodec all).compress ([], phrases) x (x.length + 1024 - ([] : List UInt8).length) =
      .ok { state := ([], (code phrases x).2), taken := x.length
            out := (code phrases x).1 ++ syncTrailer, status := .ok } :=
    congrArg Except.ok (compress_of_room (s := ([], phrases)) rfl (by
      rw [List.length_nil]
      simp only
      omega))
  have hloop := @encodeLoop_last (blockCodec all) 0 ([], phrases) x [] _ _ hc
    (Or.inr ⟨List.drop_length, endsWithSync_append _⟩)
  have hstrip : stripSync ((code phrases x).1 ++ syncTrailer) = some (code phrases x).1 := by
    unfold stripSync
    rw [if_pos (endsWithSync_append _), List.length_append]
    exact congrArg some (List.take_left' (by simp [syncTrailer]))
  unfold encodeFrame
  rw [hloop, List.nil_append]
  simp only
  rw [hstrip]
  simp only
  rw [if_neg (by omega)]

/-- The frame of a text that is no phrase. -/
def blockFrame (x : List UInt8) : List UInt8 := toBeBytes (blocks x).length ++ blocks x

theorem encodeFrame_blockFrame {x : List UInt8} (hx : x.length ≤ 65000) :
    encodeFrame (blockCodec []) 1 ([], []) x =
      some (.ok (blockFrame x, (([], []) : List UInt8 × List (List UInt8)))) := by
  have hcode : code [] x = (blocks x, []) := if_neg nofun
  have hlen := (code_spec [] x).2.2
  have h := encodeFrame_blocks [] [] (x := x) (by omega) (by omega)
  rw [hcode] at h
  exact h

/-- What a decompressor that owes nothing returns for a frame: what it holds, as far as the first
    buffer goes. -/
theorem decodeLoop_even {taken given w x : List UInt8} (h : given = plain phrases taken)
    (hx : plain phrases (taken ++ w) = given ++ x) :
    decodeLoop (blockCodec phrases) (taken, given.length) w [] outStep =
      .ok (x.take outStep, (taken ++ w, given.length + (x.take outStep).length)) := by
  have hc : (blockCodec phrases).decompress (taken, given.length) w
      (outStep - ([] : List UInt8).length) = .ok _ := congrArg Except.ok (decompress_even h w outStep)
  rw [hx, List.drop_left] at hc
  exact @decodeLoop_last (blockCodec phrases) (taken, given.length) w [] _ _ hc
    (Or.inr List.drop_length)

/-- One that owes gives that first. -/
theorem decodeLoop_owing {taken given due w x : List UInt8} (hdue : plain phrases taken = given ++ due)
    (hx : plain phrases (taken ++ w) = given ++ due ++ x) (hne : due ≠ []) (hw : w ≠ [])
    (hlen : due.length ≤ outStep) (hlen' : due.length + x.length ≤ outStep) :
    ∃ s, decodeLoop (blockCodec phrases) (taken, given.length) w [] outStep = .ok (due ++ x, s) := by
  have hpos := List.length_pos_of_ne_nil hne
  have hc : (blockCodec phrases).decompress (taken, given.length) w
      (outStep - ([] : List UInt8).length) = .ok _ := congrArg Except.ok
    (decompress_owing (by rw [hdue, List.length_append]; omega) w outStep)
  rw [hdue, List.drop_left, List.take_of_length_le hlen, ← List.length_append] at hc
  have hc' : (blockCodec phrases).decompress (taken, (given ++ due).length) w
      (outStep + outStep - due.length) = .ok _ := congrArg Except.ok
    (decompress_even hdue.symm w (outStep + outStep - due.length))
  rw [hx, List.drop_left, List.take_of_length_le (by omega)] at hc'
  refine ⟨(taken ++ w, (given ++ due).length + x.length), ?_⟩
  rw [decodeLoop_next hc nofun hw (by decide)]
  exact @decodeLoop_last (blockCodec phrases) (taken, (given ++ due).length) w due _ _ hc'
    (Or.inr List.drop_length)

/-! ### Every chunk a phrase -/

/-- The frame of a phrase. -/
def phraseFrame : List UInt8 := [0, 1, 254]

theorem encodeFrame_phrase (all phrases : List (List UInt8)) (p : List UInt8) :
    encodeFrame (blockCodec all) 1 ([], p :: phrases) p =
      some (.ok (phraseFrame, (([], phrases) : List UInt8 × List (List UInt8)))) := by
  have hcode : code (p :: phrases) p = ([254], phrases) := if_pos rfl
  have hlen : (code (p :: phrases) p).1.length = 1 := by rw [hcode]; rfl
  have hbytes : toBeBytes 1 ++ [254] = phraseFrame := by decide
  rw [encodeFrame_blocks all (p :: phrases) (x := p) (by omega) (by omega), hlen, hcode, hbytes]

theorem encoded_phrases (all chunks : List (List UInt8)) :
    Encoded (blockCodec all) ([], chunks) chunks (chunks.map fun _ => phraseFrame) := by
  induction chunks with
  | nil => exact .nil _
  | cons chunk chunks ih => exact .cons (encodeFrame_phrase all chunks chunk) ih

theorem decodeFrame_phrase (s : (blockCodec phrases).Inflate) :
    decodeFrame (blockCodec phrases) s phraseFrame =
      decodeLoop (blockCodec phrases) s (254 :: marker) [] outStep :=
  (encodeFrame_spec (encodeFrame_phrase phrases [] [])).2 s

/-- Chunks that all came back from phrases fit the first buffer. -/
theorem short_of_decodeAll {taken given : List UInt8} {chunks : List (List UInt8)}
    (hafter : after (phrases, 0) taken = (chunks, 0)) (heven : given = plain phrases taken)
    (h : decodeAll (blockCodec phrases) (taken, given.length) (chunks.map fun _ => phraseFrame) =
      .ok chunks) :
    ∀ chunk ∈ chunks, chunk.length ≤ outStep := by
  induction chunks generalizing taken given with
  | nil => exact fun _ hm => absurd hm List.not_mem_nil
  | cons chunk chunks ih =>
    have hplain : plain phrases (taken ++ 254 :: marker) = given ++ chunk := by
      unfold plain at heven ⊢
      rw [plainFrom_append, hafter, ← heven]
      exact congrArg (given ++ ·) (List.append_nil chunk)
    rw [List.map_cons] at h
    obtain ⟨s, hs, hnext⟩ := decodeAll_cons_eq_ok.1 h
    have hloop := (decodeLoop_even heven hplain).symm.trans ((decodeFrame_phrase _).symm.trans hs)
    obtain ⟨htake, rfl⟩ := Prod.mk.inj (Except.ok.inj hloop)
    rw [htake, ← List.length_append] at hnext
    have hshort : chunk.length ≤ outStep := by
      rw [← htake]
      exact List.length_take_le _ _
    refine List.forall_mem_cons.2 ⟨hshort, ih ?_ hplain.symm hnext⟩
    rw [after_append, hafter]
    rfl

/-- **When decoding undoes encoding.** Over every codec that keeps the contract, a fresh decoder
    returns the chunks of a fresh encoder's frames, exactly when none is longer than the decoder's
    buffer. -/
theorem decodeAll_iff (chunks : List (List UInt8)) :
    (∀ (z : Codec) (plain : List UInt8 → List UInt8), z.Contract plain →
      ∀ frames, Encoded z z.newDeflate chunks frames →
        decodeAll z z.newInflate frames = .ok chunks) ↔
      ∀ chunk ∈ chunks, chunk.length ≤ 64 * 1024 := by
  constructor
  · intro h
    -- a codec that has all of the chunks for phrases
    exact short_of_decodeAll rfl rfl (h (blockCodec chunks) _ (blockCodec_contract chunks) _
      (encoded_phrases chunks chunks))
  · intro h z plain hz frames he
    exact decodeAll_of_short hz he h

/-! ### A run between two bytes -/

theorem encodeFrame_byte (all : List (List UInt8)) {phrases : List (List UInt8)} {b : UInt8}
    (h : phrases.head? ≠ some [b]) :
    encodeFrame (blockCodec all) 1 ([], phrases) [b] =
      some (.ok ([0, 2, 1, b], (([], phrases) : List UInt8 × List (List UInt8)))) := by
  have hcode : code phrases [b] = ([1, b], phrases) := if_neg h
  have hlen : (code phrases [b]).1.length = 2 := by rw [hcode]; rfl
  rw [encodeFrame_blocks all phrases (x := [b]) (by simp [hlen]) (by omega), hlen, hcode]
  rfl

theorem decodeFrame_byte (s : (blockCodec phrases).Inflate) (b : UInt8) :
    decodeFrame (blockCodec phrases) s [0, 2, 1, b] =
      decodeLoop (blockCodec phrases) s (1 :: b :: marker) [] outStep :=
  (encodeFrame_spec (@encodeFrame_byte phrases [] b nofun)).2 s

/-- Of a chunk longer than the buffer the end comes with the chunk after it. -/
theorem decodeAll_long {l r : List UInt8} (hl : l.length = outStep) (hr : r ≠ [])
    (hmax : r.length < outStep) (a c : UInt8) :
    ∃ frames, Encoded (blockCodec [l ++ r]) (blockCodec [l ++ r]).newDeflate [[a], l ++ r, [c]]
        frames ∧
      decodeAll (blockCodec [l ++ r]) (blockCodec [l ++ r]).newInflate frames =
        .ok [[a], l, r ++ [c]] := by
  have hone : [a].length < outStep := by
    rw [List.length_singleton]
    decide
  have hne : [l ++ r].head? ≠ some [a] := by
    intro heq
    have hlen := congrArg List.length (Option.some.inj heq)
    rw [List.length_append, hl] at hlen
    omega
  refine ⟨[[0, 2, 1, a], phraseFrame, [0, 2, 1, c]],
    .cons (encodeFrame_byte _ hne) (.cons (encodeFrame_phrase _ _ (l ++ r))
      (.cons (encodeFrame_byte _ nofun) (.nil _))), ?_⟩
  have p1 : Blocks.plain [l ++ r] ([] ++ 1 :: a :: marker) = [] ++ [a] := rfl
  have p2 : Blocks.plain [l ++ r] (1 :: a :: marker ++ 254 :: marker) = [a] ++ (l ++ r) :=
    congrArg (a :: ·) (List.append_nil (l ++ r))
  have p3 : Blocks.plain [l ++ r] (1 :: a :: marker ++ 254 :: marker ++ 1 :: c :: marker) =
      [a] ++ ((l ++ r) ++ [c]) := rfl
  have d1 := @decodeLoop_even [l ++ r] [] [] _ _ rfl p1
  have d2 := @decodeLoop_even [l ++ r] (1 :: a :: marker) [a] _ _ rfl p2
  rw [List.take_of_length_le (Nat.le_of_lt hone)] at d1
  rw [List.take_left' hl] at d2
  rw [← List.append_assoc] at p2
  rw [← List.append_assoc, ← List.append_assoc] at p3
  obtain ⟨s, d3⟩ := decodeLoop_owing p2 p3 hr (List.cons_ne_nil _ _) (Nat.le_of_lt hmax) hmax
  rw [List.length_append] at d3
  refine decodeAll_cons_eq_ok.2 ⟨_, (decodeFrame_byte _ a).trans d1, ?_⟩
  refine decodeAll_cons_eq_ok.2 ⟨_, (decodeFrame_phrase _).trans d2, ?_⟩
  exact decodeAll_cons_eq_ok.2 ⟨s, (decodeFrame_byte _ c).trans d3, rfl⟩

/-- 65537 bytes of one kind, between two newlines. -/
def longRun : List UInt8 := List.replicate 65537 97

/-- The run comes back a byte short, and the byte with the second newline, over a codec that keeps the
    contract. -/
theorem late_tail :
    (blockCodec [longRun]).Contract (Blocks.plain [longRun]) ∧
    (∀ chunk ∈ [[10], longRun, [10]], chunk.length ≤ maxFrameOut - 64 * 1024) ∧
    ∃ frames, Encoded (blockCodec [longRun]) (blockCodec [longRun]).newDeflate
        [[10], longRun, [10]] frames ∧
      decodeAll (blockCodec [longRun]) (blockCodec [longRun]).newInflate frames =
        .ok [[10], List.replicate 65536 97, [97, 10]] ∧
      decodeAll (blockCodec [longRun]) (blockCodec [longRun]).newInflate frames ≠
        .ok [[10], longRun, [10]] := by
  have hsplit : longRun = List.replicate 65536 97 ++ [97] := List.replicate_succ'
  obtain ⟨frames, he, hd⟩ := @decodeAll_long (List.replicate 65536 97) [97]
    List.length_replicate (by simp) (by decide) 10 10
  rw [hsplit]
  refine ⟨blockCodec_contract _, ?_, frames, he, hd, ?_⟩
  · simp only [List.forall_mem_cons, List.length_append, List.length_replicate]
    exact ⟨by decide, by decide, by decide, fun _ h => by cases h⟩
  · rw [hd]
    intro heq
    have hlen := congrArg List.length (List.cons.inj (List.cons.inj (Except.ok.inj heq)).2).1
    rw [List.length_append, List.length_singleton] at hlen
    omega

end

end Mlatd
