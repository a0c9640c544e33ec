/-
  A compressor and a decompressor that keep their state from call to call. Each call is given the
  input at hand and room for output, takes some of the input and fills some of the room.

  `Codec.Contract` is the streaming contract of zlib for a compressor whose every call is a sync
  flush. `plain w` is what a decompressor can get from the bytes `w`. A call that owes nothing and
  leaves room has taken its input and given all there was to give. A call that fills its room says
  nothing: there may be input left, output left, or neither. Nor does a call that owes output: it
  may give that and no more.

  `blockCodec` is a codec that keeps the contract (`blockCodec_contract`). Its compressor writes
  blocks, and phrases agreed on beforehand in one byte. Its decompressor takes all its input at
  once, owes what had no room, and takes nothing as long as it owes.
-/
import Mathlib.Data.List.Basic

namespace Streaming

inductive Status where
  | ok
  | bufError
  | streamEnd
  deriving DecidableEq

/-- What a call that did not fail did. -/
structure Call (S : Type) where
  state : S
  taken : ℕ
  out : List UInt8
  status : Status

structure Codec where
  Deflate : Type
  Inflate : Type
  newDeflate : Deflate
  newInflate : Inflate
  /-- one call with sync flush: the input, the room -/
  compress : Deflate → List UInt8 → ℕ → Except String (Call Deflate)
  decompress : Inflate → List UInt8 → ℕ → Except String (Call Inflate)

namespace Codec

/-- The compressor came to this state taking `fed` and giving `emitted`, and no call of it filled
    its room: every flush is complete. -/
inductive Flushed (z : Codec) : z.Deflate → List UInt8 → List UInt8 → Prop where
  | new : Flushed z z.newDeflate [] []
  | call {s : z.Deflate} {fed emitted x : List UInt8} {room : ℕ} {c : Call z.Deflate} :
      Flushed z s fed emitted → z.compress s x room = .ok c → c.out.length < room →
      Flushed z c.state (fed ++ x.take c.taken) (emitted ++ c.out)

/-- The decompressor came to this state taking `taken` and giving `given`. -/
inductive Inflated (z : Codec) : z.Inflate → List UInt8 → List UInt8 → Prop where
  | new : Inflated z z.newInflate [] []
  | call {s : z.Inflate} {taken given x : List UInt8} {room : ℕ} {c : Call z.Inflate} :
      Inflated z s taken given → z.decompress s x room = .ok c →
      Inflated z c.state (taken ++ x.take c.taken) (given ++ c.out)

/-- The bytes are a stream up to a complete flush. -/
def Written (z : Codec) (w : List UInt8) : Prop := ∃ s fed, z.Flushed s fed w

structure Contract (z : Codec) (plain : List UInt8 → List UInt8) : Prop where
  plain_mono : ∀ {v w}, v <+: w → plain v <+: plain w
  /-- after a complete flush all of the input can be had -/
  flushed_plain : ∀ {s fed emitted}, z.Flushed s fed emitted → plain emitted = fed
  compress_room : ∀ {s fed emitted}, z.Flushed s fed emitted → ∀ {x room c},
    z.compress s x room = .ok c → c.out.length < room → c.taken = x.length
  /-- input of up to 64 KiB does not grow by a kilobyte -/
  compress_bound : ∀ {s fed emitted}, z.Flushed s fed emitted → ∀ {x room c},
    x.length ≤ 64 * 1024 → x.length + 1024 ≤ room → z.compress s x room = .ok c →
    c.out.length < room
  /-- what was given is what the bytes hold, as far as it goes -/
  inflated_plain : ∀ {s taken given}, z.Inflated s taken given → given <+: plain taken
  decompress_ok : ∀ {s taken given}, z.Inflated s taken given → ∀ x room,
    z.Written (taken ++ x) → ∃ c, z.decompress s x room = .ok c
  decompress_call : ∀ {s taken given}, z.Inflated s taken given → ∀ {x room c},
    z.Written (taken ++ x) → z.decompress s x room = .ok c →
    c.taken ≤ x.length ∧ c.out.length ≤ room ∧ c.status ≠ .streamEnd
  /-- a call that owes nothing and leaves room has taken its input and owes nothing -/
  decompress_room : ∀ {s taken given}, z.Inflated s taken given → given = plain taken →
    ∀ {x room c}, z.Written (taken ++ x) → z.decompress s x room = .ok c → c.out.length < room →
    c.taken = x.length ∧ given ++ c.out = plain (taken ++ x)

end Codec

/-! ## Blocks and phrases -/

namespace Blocks

/-- The end of a flush. -/
def marker : List UInt8 := [0, 0, 255, 255]

/-- Where a reader stands: the phrases to come, the bytes left of the block. -/
abbrev Place := List (List UInt8) × ℕ

/-- One byte read. Between blocks 255 is nothing, 254 the next phrase, and any other byte the
    length of a block. -/
def read : Place → UInt8 → List UInt8 × Place
  | (phrases, k + 1), b => ([b], phrases, k)
  | (phrases, 0), b =>
    if b = 255 then ([], phrases, 0)
    else if b = 254 then (phrases.headD [], phrases.tail, 0)
    else ([], phrases, b.toNat)

def plainFrom : Place → List UInt8 → List UInt8
  | _, [] => []
  | p, b :: w => (read p b).1 ++ plainFrom (read p b).2 w

def after : Place → List UInt8 → Place
  | p, [] => p
  | p, b :: w => after (read p b).2 w

def plain (phrases : List (List UInt8)) (w : List UInt8) : List UInt8 := plainFrom (phrases, 0) w

/-- A text in blocks of up to 253 bytes, only the first of them shorter. -/
def blocks : List UInt8 → List UInt8
  | [] => []
  | b :: x =>
    match blocks x with
    | [] => [1, b]
    | n :: w => if n < 253 then (n + 1) :: b :: w else 1 :: b :: n :: w

/-- A text as it is written, and the phrases to come after it. -/
def code (phrases : List (List UInt8)) (x : List UInt8) : List UInt8 × List (List UInt8) :=
  if phrases.head? = some x then ([254], phrases.tail) else (blocks x, phrases)

/-- The compressor takes its input at once and keeps what it has no room for; its state is that
    and the phrases to come. -/
def compress (s : List UInt8 × List (List UInt8)) (x : List UInt8) (room : ℕ) :
    Call (List UInt8 × List (List UInt8)) :=
  let due := s.1 ++ ((code s.2 x).1 ++ marker)
  { state := (due.drop room, (code s.2 x).2), taken := x.length, out := due.take room, status := .ok }

/-- The decompressor's state is what it took and how much it gave. -/
def decompress (phrases : List (List UInt8)) (s : List UInt8 × ℕ) (x : List UInt8) (room : ℕ) :
    Call (List UInt8 × ℕ) :=
  let x := if s.2 < (plain phrases s.1).length then [] else x
  let out := ((plain phrases (s.1 ++ x)).drop s.2).take room
  { state := (s.1 ++ x, s.2 + out.length), taken := x.length, out := out, status := .ok }

end Blocks

def blockCodec (phrases : List (List UInt8)) : Codec where
  Deflate := List UInt8 × List (List UInt8)
  Inflate := List UInt8 × ℕ
  newDeflate := ([], phrases)
  newInflate := ([], 0)
  compress s x room := .ok (Blocks.compress s x room)
  decompress s x room := .ok (Blocks.decompress phrases s x room)

namespace Blocks

variable {phrases : List (List UInt8)}

theorem after_append (p : Place) (v w : List UInt8) : after p (v ++ w) = after (after p v) w := by
  induction v generalizing p with
  | nil => rfl
  | cons b v ih => exact ih (read p b).2

theorem plainFrom_append (p : Place) (v w : List UInt8) :
    plainFrom p (v ++ w) = plainFrom p v ++ plainFrom (after p v) w := by
  induction v generalizing p with
  | nil => rfl
  | cons b v ih =>
    rw [List.cons_append, plainFrom, plainFrom, ih, List.append_assoc]
    rfl

theorem plain_mono {v w : List UInt8} (h : v <+: w) : plain phrases v <+: plain phrases w := by
  obtain ⟨t, rfl⟩ := h
  unfold plain
  rw [plainFrom_append]
  exact List.prefix_append _ _

/-- Blocks start with the length `n` of one, and the rest reads as the text within that. -/
theorem blocks_cons (b : UInt8) (x : List UInt8) : ∃ n w, blocks (b :: x) = n :: w ∧
    1 ≤ n.toNat ∧ n.toNat ≤ 253 ∧
    253 * (blocks (b :: x)).length + n.toNat = 254 * (b :: x).length + 253 ∧
    plainFrom (phrases, n.toNat) w = b :: x ∧ after (phrases, n.toNat) w = (phrases, 0) := by
  induction x generalizing b with
  | nil => exact ⟨1, [b], rfl, by decide, by decide, rfl, rfl, rfl⟩
  | cons c x ih =>
    obtain ⟨n, w, hx, h1, h2, hlen, hplain, hafter⟩ := ih c
    rw [hx, List.length_cons] at hlen
    rw [blocks, hx]
    simp only [List.length_cons] at hlen ⊢
    by_cases hn : n < 253
    · have hlt : n.toNat < 253 := hn
      have hsucc : (n + 1).toNat = n.toNat + 1 := by
        rw [UInt8.toNat_add]
        exact Nat.mod_eq_of_lt (by show n.toNat + 1 < 256; omega)
      rw [if_pos hn]
      refine ⟨n + 1, b :: w, rfl, by omega, by omega, ?_, ?_, ?_⟩
      · simp only [List.length_cons, hsucc]
        omega
      · rw [hsucc, plainFrom]
        exact congrArg (b :: ·) hplain
      · rw [hsucc]
        exact hafter
    · have hge : 253 ≤ n.toNat := Nat.not_lt.1 hn
      have hread : read (phrases, 0) n = ([], phrases, n.toNat) := by
        have h255 : n ≠ 255 := by rintro rfl; exact absurd h2 (by decide)
        have h254 : n ≠ 254 := by rintro rfl; exact absurd h2 (by decide)
        rw [read, if_neg h255, if_neg h254]
      rw [if_neg hn]
      refine ⟨1, b :: n :: w, rfl, by decide, by decide, ?_, ?_, ?_⟩
      · show 253 * (w.length + 1 + 1 + 1) + 1 = _
        omega
      · show [b] ++ plainFrom (phrases, 0) (n :: w) = _
        rw [plainFrom, hread]
        exact congrArg (b :: ·) hplain
      · show after (phrases, 0) (n :: w) = _
        rw [after, hread]
        exact hafter

/-- A text written reads as it is, in little more room. -/
theorem code_spec (phrases : List (List UInt8)) (x : List UInt8) :
    plainFrom (phrases, 0) (code phrases x).1 = x ∧
      after (phrases, 0) (code phrases x).1 = ((code phrases x).2, 0) ∧
      253 * (code phrases x).1.length ≤ 254 * x.length + 253 := by
  unfold code
  split
  · next h =>
    cases phrases with
    | nil => cases h
    | cons p ps =>
      obtain rfl : p = x := Option.some.inj h
      exact ⟨List.append_nil p, rfl, by simp⟩
  · cases x with
    | nil => exact ⟨rfl, rfl, by simp [blocks]⟩
    | cons b x =>
      obtain ⟨n, w, hx, h1, h2, hlen, hplain, hafter⟩ := @blocks_cons phrases b x
      have h255 : n ≠ 255 := by rintro rfl; exact absurd h2 (by decide)
      have h254 : n ≠ 254 := by rintro rfl; exact absurd h2 (by decide)
      have hread : read (phrases, 0) n = ([], phrases, n.toNat) := by
        rw [read, if_neg h255, if_neg h254]
      refine ⟨?_, ?_, by simp only; omega⟩
      · rw [hx, plainFrom, hread]
        exact hplain
      · rw [hx, after, hread]
        exact hafter

/-- What a compressor that has flushed wrote. -/
structure Wrote (phrases : List (List UInt8)) (s : List UInt8 × List (List UInt8))
    (fed emitted : List UInt8) : Prop where
  pending : s.1 = []
  plain : Blocks.plain phrases emitted = fed
  after : Blocks.after (phrases, 0) emitted = (s.2, 0)

theorem Wrote.append {s : List UInt8 × List (List UInt8)} {fed emitted : List UInt8}
    (h : Wrote phrases s fed emitted) (x : List UInt8) :
    Wrote phrases ([], (code s.2 x).2) (fed ++ x) (emitted ++ ((code s.2 x).1 ++ marker)) := by
  obtain ⟨hplain, hafter, -⟩ := code_spec s.2 x
  have hp := h.plain
  unfold Blocks.plain at hp
  refine ⟨rfl, ?_, ?_⟩
  · unfold Blocks.plain
    rw [plainFrom_append, plainFrom_append, hp, h.after, hplain, hafter]
    exact congrArg (fed ++ ·) (List.append_nil x)
  · rw [after_append, after_append, h.after, hafter]
    rfl

theorem compress_length {s : List UInt8 × List (List UInt8)} (hs : s.1 = []) (x : List UInt8)
    (room : ℕ) : (compress s x room).out = ((code s.2 x).1 ++ marker).take room ∧
      (compress s x room).state.1 = ((code s.2 x).1 ++ marker).drop room := by
  unfold compress
  rw [hs]
  exact ⟨rfl, rfl⟩

/-- With room for it, all is written. -/
theorem compress_of_room {s : List UInt8 × List (List UInt8)} (hs : s.1 = []) {x : List UInt8}
    {room : ℕ} (h : (code s.2 x).1.length + 4 ≤ room) :
    compress s x room = { state := ([], (code s.2 x).2), taken := x.length
                          out := (code s.2 x).1 ++ marker, status := .ok } := by
  have hlen : ((code s.2 x).1 ++ marker).length ≤ room := by
    rw [List.length_append]
    exact h
  unfold compress
  simp only [hs, List.nil_append, List.drop_eq_nil_of_le hlen, List.take_of_length_le hlen]

theorem room_of_compress {s : List UInt8 × List (List UInt8)} (hs : s.1 = []) {x : List UInt8}
    {room : ℕ} (h : (compress s x room).out.length < room) : (code s.2 x).1.length + 4 ≤ room := by
  rw [(compress_length hs x room).1, List.length_take, List.length_append] at h
  have hmarker : marker.length = 4 := rfl
  omega

theorem wrote_of_flushed {s : (blockCodec phrases).Deflate} {fed emitted : List UInt8}
    (h : (blockCodec phrases).Flushed s fed emitted) : Wrote phrases s fed emitted := by
  induction h with
  | new => exact ⟨rfl, rfl, rfl⟩
  | @call s fed emitted x room c _ hc hroom ih =>
    cases hc
    have hall := compress_of_room ih.pending (room_of_compress ih.pending hroom)
    rw [hall]
    show Wrote phrases _ (fed ++ x.take x.length) _
    rw [List.take_length]
    exact ih.append x

/-- What a decompressor keeps of what it took and gave. -/
def Keeps (phrases : List (List UInt8)) (s : List UInt8 × ℕ) (taken given : List UInt8) : Prop :=
  s = (taken, given.length) ∧ given <+: plain phrases taken

theorem decompress_owing {taken given : List UInt8} (h : given.length < (plain phrases taken).length)
    (x : List UInt8) (room : ℕ) :
    decompress phrases (taken, given.length) x room =
      { state := (taken, given.length + (((plain phrases taken).drop given.length).take room).length)
        taken := 0, out := ((plain phrases taken).drop given.length).take room, status := .ok } := by
  unfold decompress
  simp only [if_pos h, List.append_nil, List.length_nil]

theorem decompress_even {taken given : List UInt8} (h : given = plain phrases taken)
    (x : List UInt8) (room : ℕ) :
    decompress phrases (taken, given.length) x room =
      { state := (taken ++ x, given.length +
          (((plain phrases (taken ++ x)).drop given.length).take room).length)
        taken := x.length, out := ((plain phrases (taken ++ x)).drop given.length).take room
        status := .ok } := by
  have hlt : ¬ given.length < (plain phrases taken).length := by rw [h]; exact Nat.lt_irrefl _
  unfold decompress
  simp only [if_neg hlt]

/-- A decompressor owes something, or is even. -/
theorem Keeps.owing_or_even {s : List UInt8 × ℕ} {taken given : List UInt8}
    (h : Keeps phrases s taken given) :
    given.length < (plain phrases taken).length ∨ given = plain phrases taken := by
  rcases Nat.lt_or_ge given.length (plain phrases taken).length with hlt | hge
  · exact Or.inl hlt
  · exact Or.inr (h.2.eq_of_length_le hge)

theorem Keeps.call {s : List UInt8 × ℕ} {taken given : List UInt8}
    (h : Keeps phrases s taken given) (x : List UInt8) (room : ℕ) :
    Keeps phrases (decompress phrases s x room).state
      (taken ++ x.take (decompress phrases s x room).taken)
      (given ++ (decompress phrases s x room).out) := by
  have hnext {w : List UInt8} (hw : given <+: plain phrases w) :
      Keeps phrases (w, given.length + (((plain phrases w).drop given.length).take room).length) w
        (given ++ ((plain phrases w).drop given.length).take room) := by
    obtain ⟨due, hdue⟩ := hw
    unfold Keeps
    rw [← hdue, List.drop_left, List.length_append, List.prefix_append_right_inj]
    exact ⟨rfl, List.take_prefix _ _⟩
  rcases h.owing_or_even with hlt | heq
  · rw [h.1, decompress_owing hlt]
    simp only [List.take_zero, List.append_nil]
    exact hnext h.2
  · rw [h.1, decompress_even heq]
    simp only [List.take_length]
    exact hnext (h.2.trans (plain_mono (List.prefix_append taken x)))

theorem keeps_of_inflated {s : (blockCodec phrases).Inflate} {taken given : List UInt8}
    (h : (blockCodec phrases).Inflated s taken given) : Keeps phrases s taken given := by
  induction h with
  | new => exact ⟨rfl, List.nil_prefix⟩
  | call _ hc ih =>
    cases hc
    exact ih.call _ _

end Blocks

theorem blockCodec_contract (phrases : List (List UInt8)) :
    (blockCodec phrases).Contract (Blocks.plain phrases) where
  plain_mono := Blocks.plain_mono
  flushed_plain h := (Blocks.wrote_of_flushed h).plain
  compress_room _ _ _ _ hc _ := by
    cases hc
    rfl
  compress_bound {s _ _} h x room _ hx hroom hc := by
    cases hc
    have hpending := (Blocks.wrote_of_flushed h).pending
    obtain ⟨-, -, hlen⟩ := Blocks.code_spec s.2 x
    rw [(Blocks.compress_length hpending x room).1, List.length_take, List.length_append]
    have hmarker : Blocks.marker.length = 4 := rfl
    omega
  inflated_plain h := (Blocks.keeps_of_inflated h).2
  decompress_ok _ _ _ _ := ⟨_, rfl⟩
  decompress_call h x room _ _ hc := by
    cases hc
    unfold Blocks.decompress
    simp only
    refine ⟨?_, List.length_take_le _ _, fun h => by cases h⟩
    split
    · exact Nat.zero_le _
    · exact Nat.le_refl _
  decompress_room h heven x room _ _ hc hroom := by
    cases hc
    have hkeeps := Blocks.keeps_of_inflated h
    rw [hkeeps.1, Blocks.decompress_even heven] at hroom ⊢
    obtain ⟨due, hdue⟩ := hkeeps.2.trans (Blocks.plain_mono (List.prefix_append _ x))
    simp only [← hdue, List.drop_left, List.length_take] at hroom ⊢
    refine ⟨trivial, ?_⟩
    rw [List.take_of_length_le (by omega)]

end Streaming
