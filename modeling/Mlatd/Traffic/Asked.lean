/-
  What the server believes it requested, against what it asked for.

  `requested` is a connection's belief; beside a run of its lines, `asked` is the ghost that holds
  an aircraft from the start_sending line the writer's queue took for it until the next time it is
  inserted into `requested`. A start_sending that the queue refuses leaves its aircraft requested
  and not asked for, unless the same line takes them back: `requested_asked_iff`.
-/
import Mlatd.Lib.Run
import Mlatd.Traffic

namespace Mlatd

variable {F : Type} [F64 F]

namespace Traffic

/-! ## What each operation does to `requested` -/

@[simp] theorem hasRoom_requested (t : Traffic F) (now : F) :
    (t.hasRoom now).1.requested = t.requested := by
  unfold hasRoom
  split <;> rfl

omit [F64 F] in
theorem request_spec (t : Traffic F) (icao : String) :
    ((t.request icao).1.requested =
      if (t.request icao).2 then insert icao t.requested else t.requested) ∧
      ((t.request icao).2 = true → icao ∉ t.requested) := by
  unfold request
  by_cases h : icao ∈ t.requested
  · simp [h]
  · simp [h]

/-- An aircraft is started exactly when it is inserted. -/
theorem offered_spec (t : Traffic F) (icao : String) (now : F) :
    ((t.offered icao now).1.requested =
      if (t.offered icao now).2 then insert icao t.requested else t.requested) ∧
      ((t.offered icao now).2 = true → icao ∉ t.requested) := by
  unfold offered
  split
  · exact ⟨rfl, nofun⟩
  · split
    · exact ⟨rfl, nofun⟩
    · split
      · exact t.request_spec icao
      · split
        · exact ⟨rfl, nofun⟩
        · simp only
          split
          · have h := request_spec
              { (t.hasRoom now).1 with suppressed := (t.hasRoom now).1.suppressed.erase icao } icao
            rwa [hasRoom_requested] at h
          · exact ⟨hasRoom_requested t now, nofun⟩

/-- The names collected so far and the rest, offered in turn. -/
theorem foldl_offerOne (now : F) (names : List String) (t : Traffic F) (fresh : List String) :
    ∃ more, names.foldl (offerOne now) (t, fresh) =
        ((names.foldl (offerOne now) (t, fresh)).1, fresh ++ more) ∧
      (names.foldl (offerOne now) (t, fresh)).1.requested = t.requested ∪ more.toFinset ∧
      ∀ h ∈ more, h ∉ t.requested := by
  induction names generalizing t fresh with
  | nil => exact ⟨[], by simp, by simp, by simp⟩
  | cons icao names ih =>
    obtain ⟨hreq, hnew⟩ := t.offered_spec icao now
    rw [List.foldl_cons]
    by_cases hs : (t.offered icao now).2 = true
    · have hone : offerOne now (t, fresh) icao = ((t.offered icao now).1, fresh ++ [icao]) := by
        simp [offerOne, hs]
      obtain ⟨more, h1, h2, h3⟩ := ih (t.offered icao now).1 (fresh ++ [icao])
      rw [if_pos hs] at hreq
      rw [hone]
      refine ⟨icao :: more, ?_, ?_, ?_⟩
      · rw [h1]
        simp
      · rw [h2, hreq, List.toFinset_cons]
        ext x
        simp only [Finset.mem_union, Finset.mem_insert]
        tauto
      · intro x hx
        rcases List.mem_cons.1 hx with rfl | hx
        · exact hnew hs
        · intro hx'
          apply h3 x hx
          rw [hreq]
          exact Finset.mem_insert_of_mem hx'
    · have hone : offerOne now (t, fresh) icao = ((t.offered icao now).1, fresh) := by
        simp [offerOne, hs]
      rw [if_neg hs] at hreq
      rw [hone]
      obtain ⟨more, h1, h2, h3⟩ := ih (t.offered icao now).1 fresh
      rw [hreq] at h2 h3
      exact ⟨more, h1, h2, h3⟩

/-- The fresh names are the insertions. -/
theorem offerAll_spec (t : Traffic F) (names : List String) (now : F) :
    (t.offerAll names now).1.requested = t.requested ∪ (t.offerAll names now).2.toFinset ∧
      ∀ h ∈ (t.offerAll names now).2, h ∉ t.requested := by
  obtain ⟨more, h1, h2, h3⟩ := foldl_offerOne now names t []
  have hfresh : (t.offerAll names now).2 = more := congrArg Prod.snd h1
  rw [hfresh]
  exact ⟨h2, h3⟩

omit [F64 F] in
theorem foldl_lost_requested (t : Traffic F) (names : List String) :
    (names.foldl lost t).requested = t.requested \ names.toFinset := by
  induction names generalizing t with
  | nil => simp
  | cons icao names ih =>
    rw [List.foldl_cons, ih]
    ext x
    simp only [lost, Finset.mem_sdiff, Finset.mem_erase, List.toFinset_cons, Finset.mem_insert]
    tauto

/-- A pair turned away takes its aircraft off. -/
theorem onSync_requested (t : Traffic F) (icao : String) (now : F) :
    (t.onSync icao now).1.requested =
      if (t.onSync icao now).2 then t.requested else t.requested.erase icao := by
  unfold onSync
  split
  · rfl
  · split
    · rfl
    · simp only
      split
      · exact hasRoom_requested t now
      · exact congrArg (·.erase icao) (hasRoom_requested t now)

/-! ## One line -/

/-- The aircraft whose sync pair the line brings and the cap turns away. -/
def turnedAway (t : Traffic F) (v : Json F) (now : F) : Option String :=
  ((v.get "sync").bind syncPair).bind fun p =>
    (adsbIcao p.2.2.1).filter fun icao => !(t.onSync icao now).2

/-- The aircraft that the lines the queue took ask for. -/
def Sent.asks : Sent → List String
  | ⟨.startSending icaos, true⟩ => icaos
  | _ => []

def asked (sent : List Sent) : Finset String := (sent.flatMap Sent.asks).toFinset

theorem asked_append (l m : List Sent) : asked (l ++ m) = asked l ∪ asked m := by
  simp [asked, List.flatMap_append, List.toFinset_append]

theorem takeOffers_spec (t : Traffic F) (text : Text F) (q : Queue) (v : Json F) (now : F) :
    (∀ h, h ∈ (t.takeOffers text q v now).1.requested ↔
      (h ∈ t.requested ∨ h ∈ (t.offerAll (offeredNames text v) now).2) ∧
        h ∉ lostNames text v) ∧
    asked (t.takeOffers text q v now).2 =
      if q (.startSending (t.offerAll (offeredNames text v) now).2) = true then
        (t.offerAll (offeredNames text v) now).2.toFinset
      else ∅ := by
  obtain ⟨hreq, -⟩ := t.offerAll_spec (offeredNames text v) now
  unfold takeOffers
  simp only
  constructor
  · intro h
    rw [foldl_lost_requested, hreq]
    simp only [Finset.mem_sdiff, Finset.mem_union, List.mem_toFinset]
  · cases (t.offerAll (offeredNames text v) now).2 with
    | nil => simp [asked]
    | cons a l =>
      cases hq : q (.startSending (a :: l)) <;> simp [asked, Sent.asks]

theorem forward_spec (t : Traffic F) (rx : RxRef) (q : Option Queue) (v : Json F) (now : F) :
    (∀ h, h ∈ (t.forward rx q v now).1.requested ↔
      h ∈ t.requested ∧ t.turnedAway v now ≠ some h) ∧
      asked (t.forward rx q v now).2.1 = ∅ := by
  unfold forward turnedAway
  cases v.get "sync" with
  | none =>
    simp only [Option.bind_none]
    cases v.get "mlat" with
    | some ml => exact ⟨by simp, rfl⟩
    | none =>
      simp only
      split <;> exact ⟨by simp, rfl⟩
  | some sy =>
    simp only [Option.bind_some]
    cases syncPair sy with
    | none => exact ⟨by simp, rfl⟩
    | some p =>
      obtain ⟨et, ot, em, om⟩ := p
      simp only [Option.bind_some, forwardSync]
      cases adsbIcao em with
      | none => exact ⟨by simp, rfl⟩
      | some icao =>
        have hreq := t.onSync_requested icao now
        simp only
        by_cases hs : (t.onSync icao now).2 = true
        · rw [if_pos hs] at hreq
          simp only [hs, if_true]
          exact ⟨fun h => by simp [hreq, Option.filter_some, hs], rfl⟩
        · have hs := Bool.eq_false_iff.2 hs
          rw [hs] at hreq
          simp only [hs, Bool.false_eq_true, if_false]
          constructor
          · intro h
            rw [hreq]
            simp only [Bool.false_eq_true, if_false, Finset.mem_erase, Option.filter_some, hs,
              Bool.not_false, if_true, ne_eq, Option.some.injEq]
            tauto
          · cases q <;> rfl

end Traffic

/-- A line of a client, the answers of its writer's queue, and the output clock. -/
structure LineEvent (F : Type) where
  line : List UInt8
  queue : Option Queue
  now : F

/-- A connection's traffic, and beside it the aircraft that a start_sending line taken by the
    queue has named since they were last inserted into `requested`. -/
structure Asking (F : Type) where
  traffic : Traffic F
  asked : Finset String

namespace Asking

def start (cap : ℕ) : Asking F := ⟨Traffic.new cap, ∅⟩

/-- What a line inserts into `requested`. -/
def fresh (text : Text F) (t : Traffic F) (e : LineEvent F) : List String :=
  match text.parseJson e.line, e.queue with
  | some v, some _ => (t.offerAll (Traffic.offeredNames text v) e.now).2
  | _, _ => []

def step (text : Text F) (rx : RxRef) (c : Asking F) (e : LineEvent F) : Asking F where
  traffic := (c.traffic.processLineTx text rx e.queue e.line e.now).1
  asked := (c.asked \ (fresh text c.traffic e).toFinset) ∪
    Traffic.asked (c.traffic.processLineTx text rx e.queue e.line e.now).2.1

/-- When the queue refuses the line's start_sending, the line takes back every aircraft that it
    names: reported lost, or turned away with its own sync pair. -/
def TakenBack (text : Text F) (c : Asking F) (e : LineEvent F) : Prop :=
  ∀ v q, text.parseJson e.line = some v → e.queue = some q →
    q (.startSending (fresh text c.traffic e)) = false →
      ∀ h ∈ fresh text c.traffic e, h ∈ Traffic.lostNames text v ∨
        (c.traffic.takeOffers text q v e.now).1.turnedAway v e.now = some h

/-- Every requested aircraft has been asked for since. -/
def AllAsked (c : Asking F) : Prop := c.traffic.requested ⊆ c.asked

theorem step_spec {text : Text F} (rx : RxRef) {c : Asking F} {e : LineEvent F} {v : Json F}
    {q : Queue} (hv : text.parseJson e.line = some v) (hq : e.queue = some q) (h : String) :
    (h ∈ (step text rx c e).traffic.requested ↔
      (h ∈ c.traffic.requested ∨ h ∈ fresh text c.traffic e) ∧
        h ∉ Traffic.lostNames text v ∧
          (c.traffic.takeOffers text q v e.now).1.turnedAway v e.now ≠ some h) ∧
    (h ∈ (step text rx c e).asked ↔
      (h ∈ c.asked ∧ h ∉ fresh text c.traffic e) ∨
        h ∈ fresh text c.traffic e ∧ q (.startSending (fresh text c.traffic e)) = true) := by
  have hfresh : fresh text c.traffic e =
      (c.traffic.offerAll (Traffic.offeredNames text v) e.now).2 := by
    unfold fresh
    rw [hv, hq]
  obtain ⟨hreq, hask⟩ := c.traffic.takeOffers_spec text q v e.now
  obtain ⟨hfwd, hnone⟩ := (c.traffic.takeOffers text q v e.now).1.forward_spec rx (some q) v e.now
  rw [← hfresh] at hreq hask
  constructor
  · simp only [step, Traffic.processLineTx, hv, hq]
    rw [hfwd, hreq, and_assoc]
  · simp only [step, Traffic.processLineTx, hv, hq, Traffic.asked_append]
    rw [hnone, Finset.union_empty, hask, Finset.mem_union, Finset.mem_sdiff, List.mem_toFinset]
    split
    · next h1 => rw [List.mem_toFinset, and_iff_left h1]
    · next h1 => simp [h1]

theorem step_allAsked_iff (text : Text F) (rx : RxRef) (c : Asking F) (e : LineEvent F)
    (hc : AllAsked c) : AllAsked (step text rx c e) ↔ TakenBack text c e := by
  cases hv : text.parseJson e.line with
  | none =>
    refine iff_of_true ?_ fun v q h => by rw [hv] at h; cases h
    unfold AllAsked
    simp only [step, Traffic.processLineTx, fresh, hv]
    exact fun x hx => Finset.mem_union_left _ (by simpa using hc hx)
  | some v =>
    cases hq : e.queue with
    | none =>
      refine iff_of_true ?_ fun v q _ h => by rw [hq] at h; cases h
      intro x hx
      simp only [step, Traffic.processLineTx, fresh, hv, hq] at hx ⊢
      have hx' := ((c.traffic.forward_spec rx none v e.now).1 x).1 hx
      exact Finset.mem_union_left _ (by simpa using hc hx'.1)
    | some q =>
      have hspec := step_spec (c := c) rx hv hq
      constructor
      · intro hall v' q' hv' hq' hrefused h hh
        rw [hv] at hv'
        rw [hq] at hq'
        cases hv'
        cases hq'
        by_contra hnot
        rw [not_or] at hnot
        rcases (hspec h).2.1 (hall ((hspec h).1.2 ⟨Or.inr hh, hnot⟩)) with h1 | h1
        · exact h1.2 hh
        · rw [hrefused] at h1
          cases h1.2
      · intro hback h hh
        obtain ⟨h1, h2, h3⟩ := (hspec h).1.1 hh
        rw [(hspec h).2]
        by_cases hf : h ∈ fresh text c.traffic e
        · refine Or.inr ⟨hf, ?_⟩
          cases hqq : q (.startSending (fresh text c.traffic e)) with
          | true => rfl
          | false =>
            rcases hback v q hv hq hqq h hf with h4 | h4
            · exact absurd h4 h2
            · exact absurd h4 h3
        · exact Or.inl ⟨hc (h1.resolve_right hf), hf⟩

/-- **What is believed requested was asked for**, in exactly the runs whose refused start_sending
    lines are taken back by the client's own line. -/
theorem requested_asked_iff (text : Text F) (rx : RxRef) (cap : ℕ) (es : List (LineEvent F)) :
    (∀ n, AllAsked (Run.exec (step text rx) (start cap) (es.take n))) ↔
      Run.Steps (step text rx) (TakenBack text) (start cap) es :=
  Run.forall_take_iff_steps (I := fun _ => True) (A := fun _ => True) (fun _ _ _ _ _ _ => trivial)
    (fun c e _ _ hc => step_allAsked_iff text rx c e hc) trivial (Finset.empty_subset _)
    fun _ _ => trivial

/-! ## A full queue -/

/-- The client's line, and what it says. -/
def seenLine : List UInt8 := "\x7b\"seen\":[\"aa0001\"]\x7d".toUTF8.toList

def seenJson : Json ℚ := .obj [("seen", .arr [.str "aa0001"])]

/-- The readings of that line. -/
def seenText : Text ℚ where
  parseJson line := if line = seenLine then some seenJson else none
  jsonStrings names := "[\"" ++ "\",\"".intercalate names ++ "\"]"
  toLowercase s := String.ofList (s.toList.map asciiLower)

/-- The aircraft is reported to a full queue, then again to one with room. -/
def fullThenRoom : List (LineEvent ℚ) :=
  [⟨seenLine, some fun _ => false, 0⟩, ⟨seenLine, some fun _ => true, 30⟩]

/-- It counts as requested, and nothing ever asks for it. -/
theorem refused_never_asked :
    ¬ ∀ n, AllAsked (Run.exec (step seenText ⟨0, 0⟩) (start 0) (fullThenRoom.take n)) := by
  intro h
  have h1 : "aa0001" ∈ (Run.exec (step seenText ⟨0, 0⟩) (start 0) fullThenRoom).asked :=
    h 2 (by decide +kernel)
  exact absurd h1 (by decide +kernel)

end Asking

end Mlatd
