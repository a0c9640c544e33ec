/-
  From a client's messages to its shard (mb-proto, lib.rs and framing.rs; main.rs, handle_client):
  the lines written, batched and framed on one side, read, split and processed on the other.

  `uplink_refines`: in every mode and however the lines were batched, the bytes that arrive before
  the connection ends, whole or cut anywhere, do to the session what handling the client's own
  messages does, up to the last piece that came whole. `reports_arrive`: without a cap, the shard
  gets every plausible report of those messages, each once and in order.
-/
import Mlatd.Client
import Mlatd.Traffic.Cap

namespace Mlatd

open Streaming Incremental

variable {F : Type} [F64 F]

/-! ## A session -/

/-- What a connection has done so far: its traffic, the lines put to its writer's queue, the
    messages sent to its shard. -/
structure Session (F : Type) where
  traffic : Traffic F
  sent : List Sent
  reports : List (ShardMsg F)

/-- What the session reads from outside: the clock at each turn of the reader, and the writer's
    queue at each line of it. -/
structure Readings (F : Type) where
  clk : ℕ → F
  queue : ℕ → ℕ → Queue

namespace Session

def start (cap : ℕ) : Session F := ⟨Traffic.new cap, [], []⟩

def after (s : Session F) (p : Traffic F × List Sent × Option (ShardMsg F)) : Session F :=
  ⟨p.1, s.sent ++ p.2.1, s.reports ++ p.2.2.toList⟩

/-- One line processed. -/
def line (text : Text F) (rx : RxRef) (q : Queue) (now : F) (s : Session F) (l : List UInt8) :
    Session F :=
  s.after (s.traffic.processLineTx text rx (some q) l now)

/-- One message of the client handled. -/
def hear (text : Text F) (rx : RxRef) (q : Queue) (now : F) (s : Session F) (m : ClientMsg F) :
    Session F :=
  s.after (m.handle text rx q s.traffic now)

/-- One batch in order, at one reading of the clock. -/
def batch {α : Type} (f : Queue → F → Session F → α → Session F) (r : Readings F) (s : Session F)
    (b : List α × ℕ) : Session F :=
  b.1.zipIdx.foldl (fun s a => f (r.queue b.2 a.2) (r.clk b.2) s a.1) s

/-- The batches in order. -/
def batches {α : Type} (f : Queue → F → Session F → α → Session F) (r : Readings F)
    (s : Session F) (bs : List (List α)) : Session F :=
  bs.zipIdx.foldl (batch f r) s

/-- The session after `n` turns of the reader over the bytes `rd`. -/
def reads (text : Text F) (rx : RxRef) (r : Readings F) (cap : ℕ) (z : Codec) (n : ℕ)
    (zdec : Option z.Inflate) (rd : List UInt8) : Session F :=
  (start cap).batches (line text rx) r (read (readTurn z) n zdec rd).1

/-! ### Two sessions in step -/

theorem foldl_zipIdx_eq {α β γ : Type} {R : α → β → Prop} {f : γ → α × ℕ → γ} {g : γ → β × ℕ → γ}
    (h : ∀ s a b i, R a b → f s (a, i) = g s (b, i)) {as : List α} {bs : List β}
    (hab : List.Forall₂ R as bs) (s : γ) (i : ℕ) :
    (as.zipIdx i).foldl f s = (bs.zipIdx i).foldl g s := by
  induction hab generalizing s i with
  | nil => rfl
  | cons hr _ ih =>
    rw [List.zipIdx_cons, List.zipIdx_cons, List.foldl_cons, List.foldl_cons, h s _ _ i hr]
    exact ih _ _

/-- Lines that say messages do to the session what the messages do. -/
theorem batches_line_eq {text : Text F} (rx : RxRef) (r : Readings F) (s : Session F)
    {ls : List (List (List UInt8))} {ms : List (List (ClientMsg F))}
    (h : List.Forall₂ (List.Forall₂ fun l m => text.parseJson l = some m.toJson) ls ms) :
    s.batches (line text rx) r ls = s.batches (hear text rx) r ms := by
  refine foldl_zipIdx_eq (fun s a b i hab => ?_) h s 0
  refine foldl_zipIdx_eq (fun s l m j hlm => ?_) hab s 0
  unfold line hear
  rw [ClientMsg.processLineTx_eq hlm]

end Session

/-! ## What a client transmits -/

/-- The batches of lines as a connection carries them, in the mode its reader starts in: each line
    by itself with its newline, or each batch as a frame. -/
inductive Transmits (z : Codec) :
    Option z.Inflate → List (List (List UInt8)) → List (List UInt8) → Prop where
  | plain {lines : List (List UInt8)} : (∀ line ∈ lines, IsLine line ∧ line.length < maxLine) →
      Transmits z none (lines.map fun line => [line]) (lines.map (· ++ [newline]))
  | framed {batches : List (List (List UInt8))} {frames : List (List UInt8)} :
      Framed z batches frames → Transmits z (some z.newInflate) batches frames

/-- A line as it was written, or with its newline. -/
def IsText (l line : List UInt8) : Prop := l = line ∨ l = line ++ [newline]

variable {z : Codec}

theorem plain_item {line : List UInt8} (h : IsLine line) (hlen : line.length < maxLine) :
    Item (readTurn z) (fun p => if p = [] then Exit.closed else .overlong) none
      (line ++ [newline]) [line ++ [newline]] none where
  whole := by
    simp only [readTurn, readUntil_line h.2 hlen]
    rw [if_neg (by simp), if_neg (by simp)]
  short {p} hp hne := by
    have hpre : p <+: line := by
      rcases List.prefix_concat_iff.1 hp with rfl | hpre
      · exact absurd rfl hne
      · exact hpre
    have hnew : newline ∉ p := fun hm => h.2 (hpre.subset hm)
    have hread : readUntil maxLine p = (p, []) :=
      readUntil_partial hnew (Nat.le_of_lt (Nat.lt_of_le_of_lt hpre.length_le hlen))
    simp only [readTurn, hread]
    split
    · rfl
    · next hnil =>
      rw [if_pos fun hlast => hnew (List.mem_of_getLast? hlast)]

theorem plain_items {lines : List (List UInt8)}
    (h : ∀ line ∈ lines, IsLine line ∧ line.length < maxLine) :
    Items (readTurn z) (fun p => if p = [] then Exit.closed else .overlong) none
      (lines.map (· ++ [newline])) (lines.map fun line => [line ++ [newline]]) := by
  induction lines with
  | nil => exact .nil rfl
  | cons line lines ih =>
    rw [List.forall_mem_cons] at h
    exact .cons (plain_item h.1.1 h.1.2) (ih h.2)

/-- A transmission is read piece by piece, each piece a batch. -/
theorem Transmits.items {plain : List UInt8 → List UInt8} (hz : z.Contract plain)
    {zdec : Option z.Inflate} {batches : List (List (List UInt8))} {pieces : List (List UInt8)}
    (h : Transmits z zdec batches pieces) :
    ∃ exit outs, Items (readTurn z) exit zdec pieces outs ∧
      List.Forall₂ (List.Forall₂ IsText) outs batches := by
  cases h with
  | @plain lines h =>
    refine ⟨_, _, plain_items h, ?_⟩
    rw [List.forall₂_map_left_iff, List.forall₂_map_right_iff, List.forall₂_same]
    exact fun line _ => .cons (Or.inr rfl) .nil
  | framed h =>
    refine ⟨_, _, h.items hz, List.forall₂_same.2 fun batch _ => List.forall₂_same.2 fun line _ => ?_⟩
    exact Or.inl rfl

theorem Transmits.length_eq {zdec : Option z.Inflate} {batches : List (List (List UInt8))}
    {pieces : List (List UInt8)} (h : Transmits z zdec batches pieces) :
    pieces.length = batches.length := by
  cases h with
  | plain h => rw [List.length_map, List.length_map]
  | framed h => exact h.length_eq

/-- The lines of messages, batch by batch. -/
def linesOf (toVec : Json F → List UInt8) (msgs : List (List (ClientMsg F))) :
    List (List (List UInt8)) :=
  msgs.map fun b => b.map fun m => toVec m.toJson

omit [F64 F] in
theorem parses_of_isText {text : Text F} {toVec : Json F → List UInt8}
    {msgs : List (List (ClientMsg F))} (hr : ∀ b ∈ msgs, ∀ m ∈ b, text.Reads toVec m.toJson)
    {outs : List (List (List UInt8))}
    (h : List.Forall₂ (List.Forall₂ IsText) outs (linesOf toVec msgs)) :
    List.Forall₂ (List.Forall₂ fun l m => text.parseJson l = some (ClientMsg.toJson m)) outs msgs := by
  unfold linesOf at h
  rw [List.forall₂_map_right_iff] at h
  refine (List.forall₂_iff_get.2 ⟨h.length_eq, fun i h1 h2 => ?_⟩)
  have hb := (List.forall₂_iff_get.1 h).2 i h1 h2
  rw [List.forall₂_map_right_iff] at hb
  refine (List.forall₂_iff_get.2 ⟨hb.length_eq, fun j h3 h4 => ?_⟩)
  have hm := hr _ (List.get_mem msgs ⟨i, h2⟩) _ (List.get_mem _ ⟨j, h4⟩)
  rcases (List.forall₂_iff_get.1 hb).2 j h3 h4 with heq | heq
  · rw [heq]
    exact hm.bare
  · rw [heq]
    exact hm.ended

/-! ## The uplink -/

section
variable {plain : List UInt8 → List UInt8} {text : Text F}
  {toVec : Json F → List UInt8} {zdec : Option z.Inflate} {msgs : List (List (ClientMsg F))}
  {pieces : List (List UInt8)}

/-- The pieces that came whole, and the part of one that did not. -/
theorem reads_cut (hz : z.Contract plain) (ht : Transmits z zdec (linesOf toVec msgs) pieces)
    (hr : ∀ b ∈ msgs, ∀ m ∈ b, text.Reads toVec m.toJson) {sent : List UInt8}
    (hsent : sent <+: pieces.flatten) (rx : RxRef) (r : Readings F) (cap : ℕ) :
    ∃ k rest, k ≤ pieces.length ∧ sent = (pieces.take k).flatten ++ rest ∧
      (∀ b, pieces[k]? = some b → rest <+: b ∧ rest ≠ b) ∧
      ∀ n, Session.reads text rx r cap z n zdec sent =
        (Session.start cap).batches (Session.hear text rx) r (msgs.take (min n k)) := by
  obtain ⟨exit, outs, hitems, htexts⟩ := ht.items hz
  obtain ⟨k, rest, hk, rfl, hrest, -, hread⟩ := read_cut readTurn_local hitems hsent
  refine ⟨k, rest, hk, rfl, hrest, fun n => ?_⟩
  unfold Session.reads
  rw [hread n]
  exact Session.batches_line_eq rx r _ (List.forall₂_take _ (parses_of_isText hr htexts))

/-- **The uplink refines the client's messages.** Of bytes cut anywhere the session has handled
    the messages of the pieces that came whole, as if it had been given them. -/
theorem uplink_refines (hz : z.Contract plain) (ht : Transmits z zdec (linesOf toVec msgs) pieces)
    (hr : ∀ b ∈ msgs, ∀ m ∈ b, text.Reads toVec m.toJson) {sent : List UInt8}
    (hsent : sent <+: pieces.flatten) (rx : RxRef) (r : Readings F) (cap : ℕ) :
    ∃ k ≤ pieces.length, (pieces.take k).flatten <+: sent ∧
      (∀ b, pieces[k]? = some b → sent.length < (pieces.take k).flatten.length + b.length) ∧
      ∀ n, Session.reads text rx r cap z n zdec sent =
        (Session.start cap).batches (Session.hear text rx) r (msgs.take (min n k)) := by
  obtain ⟨k, rest, hk, rfl, hrest, hread⟩ := reads_cut hz ht hr hsent rx r cap
  refine ⟨k, hk, List.prefix_append _ _, fun b hb => ?_, hread⟩
  obtain ⟨hpre, hne⟩ := hrest b hb
  have hlt : rest.length < b.length :=
    Nat.lt_of_le_of_ne hpre.length_le fun heq => hne (hpre.eq_of_length heq)
  rw [List.length_append]
  omega

/-! ## Without a cap -/

namespace ClientMsg

theorem offer_cap (text : Text F) (q : Queue) (t : Traffic F) (now : F) (m : ClientMsg F) :
    (m.offer text q t now).1.cap = t.cap := by
  have hlost : ∀ (names : List String) (t : Traffic F), (names.foldl Traffic.lost t).cap = t.cap := by
    intro names
    induction names with
    | nil => exact fun t => rfl
    | cons name names ih => exact fun t => ih (t.lost name)
  have hoffers : ∀ (names : List String) (p : Traffic F × List String),
      (names.foldl (Traffic.offerOne now) p).1.cap = p.1.cap := by
    intro names
    induction names with
    | nil => exact fun p => rfl
    | cons name names ih =>
      intro p
      rw [List.foldl_cons, ih]
      exact Traffic.step_cap p.1 (.offered name now)
  exact (hlost _ _).trans (hoffers _ _)

/-- Without a cap every plausible report goes to the shard. -/
theorem handle_of_cap_zero (text : Text F) (rx : RxRef) (q : Queue) {t : Traffic F}
    (ht : t.cap = 0) (now : F) (m : ClientMsg F) :
    (m.handle text rx q t now).1.cap = 0 ∧ (m.handle text rx q t now).2.2 = m.report rx now := by
  have hcap : (m.offer text q t now).1.cap = 0 := by rw [offer_cap, ht]
  unfold handle
  cases hq : m.quota with
  | none => exact ⟨hcap, rfl⟩
  | some icao =>
    have hsync : (m.offer text q t now).1.onSync icao now = ((m.offer text q t now).1, true) := by
      unfold Traffic.onSync
      rw [if_pos hcap]
    simp only [hsync]
    exact ⟨hcap, rfl⟩

end ClientMsg

namespace Session

/-- The reports of batches, each at its turn's reading of the clock. -/
def reportsOf (rx : RxRef) (r : Readings F) (msgs : List (List (ClientMsg F))) (i : ℕ) :
    List (ShardMsg F) :=
  (msgs.zipIdx i).flatMap fun b => b.1.filterMap (ClientMsg.report rx (r.clk b.2))

theorem foldl_hear_reports (text : Text F) (rx : RxRef) (q : ℕ → Queue) (now : F) {s : Session F}
    (hs : s.traffic.cap = 0) (b : List (ClientMsg F)) (j : ℕ) :
    ((b.zipIdx j).foldl (fun s a => hear text rx (q a.2) now s a.1) s).traffic.cap = 0 ∧
      ((b.zipIdx j).foldl (fun s a => hear text rx (q a.2) now s a.1) s).reports =
        s.reports ++ b.filterMap (ClientMsg.report rx now) := by
  induction b generalizing s j with
  | nil => exact ⟨hs, (List.append_nil _).symm⟩
  | cons m b ih =>
    obtain ⟨h1, h2⟩ := m.handle_of_cap_zero text rx (q j) hs now
    rw [List.zipIdx_cons, List.foldl_cons]
    obtain ⟨h3, h4⟩ := ih (s := hear text rx (q j) now s m) h1 (j + 1)
    refine ⟨h3, h4.trans ?_⟩
    show s.reports ++ _ ++ _ = _
    rw [h2, List.append_assoc]
    cases hm : m.report rx now with
    | none => rw [List.filterMap_cons_none hm]; rfl
    | some msg => rw [List.filterMap_cons_some hm]; rfl

theorem batches_hear_reports (text : Text F) (rx : RxRef) (r : Readings F) {s : Session F}
    (hs : s.traffic.cap = 0) (msgs : List (List (ClientMsg F))) (i : ℕ) :
    ((msgs.zipIdx i).foldl (batch (hear text rx) r) s).reports =
      s.reports ++ reportsOf rx r msgs i := by
  induction msgs generalizing s i with
  | nil => exact (List.append_nil _).symm
  | cons b msgs ih =>
    have h := foldl_hear_reports text rx (r.queue i) (r.clk i) hs b 0
    have hreports : (s.batch (hear text rx) r (b, i)).reports =
        s.reports ++ b.filterMap (ClientMsg.report rx (r.clk i)) := h.2
    rw [List.zipIdx_cons, List.foldl_cons, ih (s := s.batch (hear text rx) r (b, i)) h.1, hreports,
      List.append_assoc]
    rfl

end Session

/-- **Every report arrives.** Without a cap the shard gets the plausible reports and the resets of
    the messages that came whole, each once and in the order the client wrote them. -/
theorem reports_arrive (hz : z.Contract plain) (ht : Transmits z zdec (linesOf toVec msgs) pieces)
    (hr : ∀ b ∈ msgs, ∀ m ∈ b, text.Reads toVec m.toJson) (rx : RxRef) (r : Readings F) {n : ℕ}
    (hn : msgs.length ≤ n) :
    (Session.reads text rx r 0 z n zdec pieces.flatten).reports = Session.reportsOf rx r msgs 0 := by
  obtain ⟨k, rest, hk, hcut, hrest, hread⟩ := reads_cut hz ht hr (List.prefix_refl _) rx r 0
  have hlen : pieces.length = msgs.length := by
    rw [ht.length_eq, linesOf, List.length_map]
  -- the rest would hold the next piece whole
  have hall : k = pieces.length := by
    by_contra hne
    have hlt : k < pieces.length := by omega
    obtain ⟨hpre, hshort⟩ := hrest _ (List.getElem?_eq_getElem hlt)
    have hdrop : rest = (pieces.drop k).flatten := by
      rw [← List.append_cancel_left_eq (pieces.take k).flatten, ← hcut, ← List.flatten_append,
        List.take_append_drop]
    rw [List.drop_eq_getElem_cons hlt, List.flatten_cons] at hdrop
    have hle := hpre.length_le
    rw [hdrop, List.length_append] at hle
    exact hshort (hpre.eq_of_length (by rw [hdrop, List.length_append]; omega))
  rw [hread n, Nat.min_eq_right (by omega), hall, hlen, List.take_length]
  exact Session.batches_hear_reports text rx r rfl msgs 0

end

/-! ## Two messages -/

def beatLine : List UInt8 := "\x7b\"heartbeat\":\x7b\x7d\x7d".toUTF8.toList
def resetLine : List UInt8 := "\x7b\"clock_reset\":\"\"\x7d".toUTF8.toList

def beat : ClientMsg ℚ := .heartbeat (.obj [])
def resetMsg : ClientMsg ℚ := .clockReset ""

/-- How the two are written, and read. -/
def twoToVec (v : Json ℚ) : List UInt8 := if (v.get "heartbeat").isSome then beatLine else resetLine

def twoText : Text ℚ where
  parseJson line :=
    if line = beatLine ∨ line = beatLine ++ [newline] then some beat.toJson
    else if line = resetLine ∨ line = resetLine ++ [newline] then some resetMsg.toJson
    else none
  jsonStrings names := "[\"" ++ "\",\"".intercalate names ++ "\"]"
  toLowercase s := String.ofList (s.toList.map asciiLower)

theorem beatLine_eq :
    beatLine = [123, 34, 104, 101, 97, 114, 116, 98, 101, 97, 116, 34, 58, 123, 125, 125] := by
  decide +kernel

theorem resetLine_eq :
    resetLine = [123, 34, 99, 108, 111, 99, 107, 95, 114, 101, 115, 101, 116, 34, 58, 34, 34, 125] := by
  decide +kernel

theorem reads_beat : twoText.Reads twoToVec beat.toJson where
  isLine := by
    show IsLine beatLine
    rw [beatLine_eq]
    unfold IsLine newline
    decide
  bare := if_pos (Or.inl rfl)
  ended := if_pos (Or.inr rfl)

theorem reads_reset : twoText.Reads twoToVec resetMsg.toJson where
  isLine := by
    show IsLine resetLine
    rw [resetLine_eq]
    unfold IsLine newline
    decide
  bare := by
    show twoText.parseJson resetLine = _
    exact (if_neg (by rw [beatLine_eq, resetLine_eq]; decide)).trans (if_pos (Or.inl rfl))
  ended := by
    show twoText.parseJson (resetLine ++ [newline]) = _
    exact (if_neg (by rw [beatLine_eq, resetLine_eq]; decide)).trans (if_pos (Or.inr rfl))

/-- A clock at nought and a queue with room. -/
def atNought : Readings ℚ := ⟨fun _ => 0, fun _ _ _ => true⟩

theorem lines_two : ∀ line ∈ [beatLine, resetLine], IsLine line ∧ line.length < maxLine := by
  simp only [List.forall_mem_cons]
  refine ⟨⟨reads_beat.isLine, ?_⟩, ⟨reads_reset.isLine, ?_⟩, by simp⟩
  · rw [beatLine_eq]
    decide
  · rw [resetLine_eq]
    decide

/-- Batches of the two lines as frames. -/
theorem framed_two {batches : List (List (List UInt8))}
    (hlines : ∀ batch ∈ batches, batch ⊆ [beatLine, resetLine] ∧ batch.length ≤ 2) :
    Framed (blockCodec []) batches (batches.map fun batch => blockFrame (lineText batch)) := by
  have hshort : ∀ batch ∈ batches, (lineText batch).length ≤ 2 * 19 := by
    intro batch hbatch
    obtain ⟨hsub, hlen⟩ := hlines batch hbatch
    have hone : ∀ line ∈ batch, (line ++ [newline]).length ≤ 19 := by
      have hboth : ∀ line ∈ [beatLine, resetLine], (line ++ [newline]).length ≤ 19 := by
        rw [beatLine_eq, resetLine_eq]
        decide
      exact fun line hline => hboth line (hsub hline)
    unfold lineText
    rw [List.length_flatMap]
    refine (List.sum_le_card_nsmul _ 19 ?_).trans ?_
    · exact List.forall_mem_map.2 hone
    · rw [List.length_map, smul_eq_mul]
      omega
  refine ⟨fun batch hbatch line hline => (lines_two line ((hlines batch hbatch).1 hline)).1, ?_,
    fun batch hbatch => (hshort batch hbatch).trans (by decide)⟩
  clear hlines
  induction batches with
  | nil => exact .nil _
  | cons batch batches ih =>
    rw [List.forall_mem_cons] at hshort
    exact .cons (encodeFrame_blockFrame (hshort.1.trans (by decide))) (ih hshort.2)

theorem reads_two : ∀ b ∈ [[beat], [resetMsg]], ∀ m ∈ b, twoText.Reads twoToVec m.toJson := by
  simp only [List.forall_mem_cons]
  exact ⟨⟨reads_beat, by simp⟩, ⟨reads_reset, by simp⟩, by simp⟩

/-- The two lines as they are, cut before the newline of the second, and as two frames, cut within
    the second. -/
theorem uplink_refines_two :
    (∃ k ≤ 2, ([beatLine ++ [newline], resetLine ++ [newline]].take k).flatten <+:
        beatLine ++ [newline] ++ resetLine ∧
      (∀ b, [beatLine ++ [newline], resetLine ++ [newline]][k]? = some b →
        (beatLine ++ [newline] ++ resetLine).length <
          ([beatLine ++ [newline], resetLine ++ [newline]].take k).flatten.length + b.length) ∧
      ∀ n, Session.reads twoText ⟨0, 0⟩ atNought 0 (blockCodec []) n none
          (beatLine ++ [newline] ++ resetLine) =
        (Session.start 0).batches (Session.hear twoText ⟨0, 0⟩) atNought
          ([[beat], [resetMsg]].take (min n k))) ∧
    let frames := [blockFrame (lineText [beatLine]), blockFrame (lineText [resetLine])]
    ∃ k ≤ 2, (frames.take k).flatten <+: frames.flatten.take 25 ∧
      (∀ b, frames[k]? = some b →
        (frames.flatten.take 25).length < (frames.take k).flatten.length + b.length) ∧
      ∀ n, Session.reads twoText ⟨0, 0⟩ atNought 0 (blockCodec []) n
          (some (blockCodec []).newInflate) (frames.flatten.take 25) =
        (Session.start 0).batches (Session.hear twoText ⟨0, 0⟩) atNought
          ([[beat], [resetMsg]].take (min n k)) := by
  constructor
  · have ht : Transmits (blockCodec []) none (linesOf twoToVec [[beat], [resetMsg]])
        [beatLine ++ [newline], resetLine ++ [newline]] := .plain lines_two
    exact uplink_refines (blockCodec_contract []) ht reads_two ⟨[newline], by simp⟩ ⟨0, 0⟩ atNought 0
  · have ht : Transmits (blockCodec []) (some (blockCodec []).newInflate)
        (linesOf twoToVec [[beat], [resetMsg]])
        [blockFrame (lineText [beatLine]), blockFrame (lineText [resetLine])] :=
      .framed (@framed_two [[beatLine], [resetLine]] (by simp))
    exact uplink_refines (blockCodec_contract []) ht reads_two (List.take_prefix 25 _) ⟨0, 0⟩
      atNought 0

/-- The same two messages in one frame. -/
theorem reports_arrive_two :
    (Session.reads twoText ⟨0, 0⟩ atNought 0 (blockCodec []) 1 (some (blockCodec []).newInflate)
      [blockFrame (lineText [beatLine, resetLine])].flatten).reports =
        [ShardMsg.clockReset ⟨0, 0⟩] := by
  have ht : Transmits (blockCodec []) (some (blockCodec []).newInflate)
      (linesOf twoToVec [[beat, resetMsg]]) [blockFrame (lineText [beatLine, resetLine])] :=
    .framed (@framed_two [[beatLine, resetLine]] (by simp))
  refine reports_arrive (blockCodec_contract []) ht ?_ ⟨0, 0⟩ atNought (n := 1) (Nat.le_refl 1)
  simp only [List.forall_mem_cons]
  exact ⟨⟨reads_beat, reads_reset, by simp⟩, by simp⟩

end Mlatd
