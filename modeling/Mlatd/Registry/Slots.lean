/-
  Slots given back and issued.

  `Frees s s' i` is all that giving slot `i` back does, `Issues s s' i info` all that issuing it
  does: one inversion lemma for each, from which the invariants over runs follow. `identify_spec`
  says what the identity rules decide: the newcomer's name is free, or its holder is replaced.
-/
import Mlatd.Lib.Vec
import Mlatd.Registry.SweepFrame

namespace Mlatd

variable {F : Type} [F64 F]

namespace State

/-! ## A slot given back -/

/-- Slot `i` was held in `s` and is given back in `s'`. -/
structure Frees (s s' : State F) (i : ℕ) : Prop where
  lt : i < s.receivers.length
  held : s.isAlive i = true
  receivers : s'.receivers = s.receivers
  gens : s'.gens = s.gens
  alive : s'.alive = s.alive.set i false
  freeSlots : s'.freeSlots = s.freeSlots ++ [i]
  byUser : s'.byUser =
    if s.byUser.lookup (s.receiver i).user = some i then s.byUser.erase (s.receiver i).user
    else s.byUser
  rxBias : s'.rxBias.length = s.rxBias.length
  rxSync : s'.rxSync.length = s.rxSync.length
  rxLog : s'.rxLog.length = s.rxLog.length
  pairs : s'.pairs = (s.dropPairs i).pairs
  forgotten : ¬ s'.Mentions i
  adds : Adds (fun _ => False) s s'

omit [F64 F] in
theorem live_iff (s : State F) (r : RxRef) :
    s.live r = true ↔ r.idx < s.receivers.length ∧ s.isAlive r.idx = true ∧
      s.gen r.idx = r.gen := by
  unfold live
  simp [and_assoc]

theorem removeReceiver_of_not_live (s : State F) {r : RxRef} (h : s.live r = false) :
    s.removeReceiver r = s := by
  unfold removeReceiver
  rw [h]
  rfl

theorem removeReceiver_of_live (s : State F) {r : RxRef} (h : s.live r = true) :
    s.removeReceiver r = (((State.dropPairs { s with alive := s.alive.set r.idx false }
      r.idx).forgetPending r.idx).dropSlotLogs r.idx).freeSlot r.idx := by
  unfold removeReceiver
  rw [h]
  rfl

omit [F64 F] in
/-- The interest of an aircraft after a slot's is erased from every log. -/
theorem dropSlotLogs_heard (s : State F) (rx : ℕ) (k : Icao) :
    (s.dropSlotLogs rx).heardMlat k = (s.heardMlat k).erase rx ∧
      (s.dropSlotLogs rx).heardSync k = (s.heardSync k).erase rx := by
  unfold State.heardMlat State.heardSync dropSlotLogs
  simp only [Finmap.lookup_mapVals]
  cases s.acLog.lookup k with
  | none =>
    simp only [Option.map_none, Option.getD_none]
    exact ⟨(Finmap.erase_of_lookup_none (Finmap.lookup_empty rx)).symm,
      (Finmap.erase_of_lookup_none (Finmap.lookup_empty rx)).symm⟩
  | some a => exact ⟨rfl, rfl⟩

omit [F64 F] in
/-- Everything under a slot is dropped with its pairs, its pending times and its logs. -/
theorem not_mentions_of_dropped (s : State F) (rx : ℕ) :
    ¬ (((s.dropPairs rx).forgetPending rx).dropSlotLogs rx).Mentions rx := by
  intro h
  cases h with
  | pairFrom j p h =>
    simp [dropSlotLogs, forgetPending, dropPairs, Finmap.lookup_retain] at h
  | pairTo j p h =>
    simp [dropSlotLogs, forgetPending, dropPairs, Finmap.lookup_retain] at h
  | reporter k sp h r hr hi =>
    simp only [dropSlotLogs, forgetPending, Finmap.lookup_mapVals, Option.map_eq_some_iff] at h
    obtain ⟨sp', -, rfl⟩ := h
    have h1 := (List.mem_filter.1 hr).2
    exact absurd hi (of_decide_eq_true h1)
  | entry k g h e he hi =>
    simp only [dropSlotLogs, forgetPending, Finmap.lookup_mapVals, Option.map_eq_some_iff] at h
    obtain ⟨g', -, rfl⟩ := h
    have h1 := (List.mem_filter.1 he).2
    exact absurd hi (of_decide_eq_true h1)
  | mlat icao t h =>
    rw [(dropSlotLogs_heard _ rx icao).1, Finmap.lookup_erase] at h
    cases h
  | sync icao t h =>
    rw [(dropSlotLogs_heard _ rx icao).2, Finmap.lookup_erase] at h
    cases h
  | offset o h =>
    simp only [dropSlotLogs, Finmap.lookup_erase] at h
    cases h

omit [F64 F] in
theorem dropSlotLogs_adds {P : ℕ → Prop} (s : State F) (rx : ℕ) :
    Adds P s (s.dropSlotLogs rx) := by
  refine { Adds.refl s with heardMlat := ?_, heardSync := ?_, stampOffset := ?_ }
  · intro k i t h
    rw [(dropSlotLogs_heard s rx k).1, Finmap.lookup_erase_ite] at h
    split at h
    · cases h
    · exact Or.inl ⟨t, h⟩
  · intro k i t h
    rw [(dropSlotLogs_heard s rx k).2, Finmap.lookup_erase_ite] at h
    split at h
    · cases h
    · exact Or.inl ⟨t, h⟩
  · intro i o h
    simp only [dropSlotLogs, Finmap.lookup_erase_ite] at h
    split at h
    · cases h
    · exact Or.inl ⟨o, h⟩

theorem removeReceiver_frees (s : State F) {r : RxRef} (h : s.live r = true) :
    Frees s (s.removeReceiver r) r.idx := by
  obtain ⟨hlt, halive, -⟩ := (live_iff s r).1 h
  rw [removeReceiver_of_live s h]
  have hfree : ∀ t : State F, Adds (fun _ => False) t (t.freeSlot r.idx) := fun t =>
    { Adds.refl (P := fun _ => False) t with }
  refine ⟨hlt, halive, rfl, rfl, rfl, rfl, rfl, rfl, rfl, List.length_modify _ _ _, rfl, ?_, ?_⟩
  · intro hm
    exact ((hfree _).mentions hm).elim (not_mentions_of_dropped _ r.idx) id
  · have h0 : Adds (fun _ => False) s { s with alive := s.alive.set r.idx false } :=
      { Adds.refl (P := fun _ => False) s with }
    exact (((h0.trans (dropPairs_adds _ _)).trans (forgetPending_adds _ _)).trans
      (dropSlotLogs_adds _ _)).trans (hfree _)

/-! ## A slot issued -/

/-- Slot `i`, popped from the free list or new, is issued to `info` in `s'`. -/
structure Issues (s s' : State F) (i : ℕ) (info : ReceiverInfo F) : Prop where
  slot : s.freeSlots.getLast? = some i ∧ s'.freeSlots = s.freeSlots.dropLast ∧
      s'.receivers = s.receivers.set i info ∧ s'.alive = s.alive.set i true ∧
      s'.gens = s.gens.set i (s.gen i + 1) ∧ s'.rxBias = s.rxBias.set i RxBias.default ∧
      s'.rxSync = s.rxSync.set i (0.0, 0.0) ∧
      s'.rxLog = s.rxLog.set i { msgs := 0, sync := ∅, mlat := ∅, mapPos := mapPosition info } ∨
    s.freeSlots = [] ∧ i = s.receivers.length ∧ s'.freeSlots = [] ∧
      s'.receivers = s.receivers ++ [info] ∧ s'.alive = s.alive ++ [true] ∧
      s'.gens = s.gens ++ [0] ∧ s'.rxBias = s.rxBias ++ [RxBias.default] ∧
      s'.rxSync = s.rxSync ++ [(0.0, 0.0)] ∧
      s'.rxLog =
        s.rxLog ++ [{ msgs := 0, sync := ∅, mlat := ∅, mapPos := mapPosition info }]
  byUser : s'.byUser = s.byUser.insert info.user i
  pairs : s'.pairs = s.pairs
  adds : Adds (fun _ => False) s s'

theorem issue_issues (s : State F) (info : ReceiverInfo F) :
    Issues s (s.issue info).1 (s.issue info).2.idx info := by
  unfold issue takeSlot
  cases h : s.freeSlots.getLast? with
  | some i => exact ⟨Or.inl ⟨h, rfl, rfl, rfl, rfl, rfl, rfl, rfl⟩, rfl, rfl,
      { Adds.refl (P := fun _ => False) s with }⟩
  | none =>
    have hnil : s.freeSlots = [] := List.getLast?_eq_none_iff.1 h
    exact ⟨Or.inr ⟨hnil, rfl, hnil, rfl, rfl, rfl, rfl, rfl, rfl⟩, rfl, rfl,
      { Adds.refl (P := fun _ => False) s with }⟩

/-- The handle of an issue carries the generation the slot now has. -/
theorem issue_gen (s : State F) (info : ReceiverInfo F) :
    (s.issue info).1.gen (s.issue info).2.idx = (s.issue info).2.gen := rfl

/-! ## The identity rules -/

/-- A newcomer is let in under a free name, or over the holder of its name. -/
theorem identify_spec {s : State F} {now : Instant} {heard : ℕ → F} {info : ReceiverInfo F}
    {replaced : Option ℕ} {user : String}
    (h : s.identify now heard info = some (replaced, user)) :
    s.byUser.lookup user = replaced := by
  unfold identify at h
  split at h
  · next hu =>
    cases h
    exact hu
  · next old hu =>
    split at h
    · split at h
      · cases h
      · split at h
        · cases h
        · split at h
          · next ha =>
            cases h
            exact ha
          · next held ha =>
            simp only at h
            split at h
            · cases h
            · cases h
              exact ha
    · cases h
      exact hu

/-- What `addReceiver` does: nothing, or an issue, over a freed holder of the name if there is
    one. -/
theorem addReceiver_cases (s : State F) (now : Instant) (heard : ℕ → F) (info : ReceiverInfo F) :
    (s.identify now heard info = none ∧ s.addReceiver now heard info = (s, none)) ∨
    ∃ user, (s.identify now heard info = some (none, user) ∧ s.byUser.lookup user = none ∧
        s.addReceiver now heard info =
          ((s.issue { info with user := user }).1, some (s.issue { info with user := user }).2)) ∨
      ∃ i, s.identify now heard info = some (some i, user) ∧ s.byUser.lookup user = some i ∧
        s.addReceiver now heard info =
          (((s.evict i).issue { info with user := user }).1,
            some ((s.evict i).issue { info with user := user }).2) := by
  unfold addReceiver
  cases h : s.identify now heard info with
  | none => exact Or.inl ⟨rfl, rfl⟩
  | some p =>
    obtain ⟨replaced, user⟩ := p
    refine Or.inr ⟨user, ?_⟩
    have hspec := identify_spec h
    cases replaced with
    | none => exact Or.inl ⟨rfl, hspec, rfl⟩
    | some i => exact Or.inr ⟨i, rfl, hspec, rfl⟩

end State

end Mlatd
