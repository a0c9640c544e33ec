/-
  What the operations of a shard leave alone.

  `SameSlots s s'`: the slots of `s'` are those of `s` (holders, generations, liveness, free list
  and names; the lengths of the per-slot vectors). Every operation but `addReceiver` and
  `removeReceiver` has it. `Mentions s i`: some container of `s` holds data under slot `i`. Every
  operation but a message of the slot itself leaves a slot unmentioned that was not mentioned.
  The two are what the invariants over runs are built from.
-/
import Mlatd.Shard

namespace Mlatd

variable {F : Type}

namespace State

/-! ## The same slots -/

/-- The slots of `s'` are those of `s`. -/
structure SameSlots (s s' : State F) : Prop where
  receivers : s'.receivers = s.receivers
  gens : s'.gens = s.gens
  alive : s'.alive = s.alive
  freeSlots : s'.freeSlots = s.freeSlots
  byUser : s'.byUser = s.byUser
  rxBias : s'.rxBias.length = s.rxBias.length
  rxSync : s'.rxSync.length = s.rxSync.length
  rxLog : s'.rxLog.length = s.rxLog.length

namespace SameSlots

theorem refl (s : State F) : SameSlots s s := ⟨rfl, rfl, rfl, rfl, rfl, rfl, rfl, rfl⟩

theorem trans {s s' s'' : State F} (h : SameSlots s s') (h' : SameSlots s' s'') :
    SameSlots s s'' :=
  ⟨h'.receivers.trans h.receivers, h'.gens.trans h.gens, h'.alive.trans h.alive,
    h'.freeSlots.trans h.freeSlots, h'.byUser.trans h.byUser, h'.rxBias.trans h.rxBias,
    h'.rxSync.trans h.rxSync, h'.rxLog.trans h.rxLog⟩

theorem isAlive {s s' : State F} (h : SameSlots s s') (i : ℕ) : s'.isAlive i = s.isAlive i := by
  unfold State.isAlive
  rw [h.alive]

theorem live {s s' : State F} (h : SameSlots s s') (r : RxRef) : s'.live r = s.live r := by
  unfold State.live State.isAlive State.gen
  rw [h.alive, h.receivers, h.gens]

theorem foldl {α : Type} {f : State F → α → State F} (hf : ∀ s a, SameSlots s (f s a))
    (s : State F) (as : List α) : SameSlots s (as.foldl f s) := by
  induction as generalizing s with
  | nil => exact refl s
  | cons a as ih => exact (hf s a).trans (ih (f s a))

end SameSlots

/-! ## Mentioned slots -/

/-- Who reported an mlat frame of the aircraft, and when. -/
def heardMlat (s : State F) (icao : Icao) : HashMap ℕ F :=
  ((s.acLog.lookup icao).map AcLog.rxMlat).getD ∅

/-- Who reported a sync pair of the aircraft, and when. -/
def heardSync (s : State F) (icao : Icao) : HashMap ℕ F :=
  ((s.acLog.lookup icao).map AcLog.rxSync).getD ∅

/-- Some container of the state holds data under the slot. -/
inductive Mentions (s : State F) (i : ℕ) : Prop
  | pairFrom (j : ℕ) (p : PairModel F) (h : s.pairs.lookup (i, j) = some p)
  | pairTo (j : ℕ) (p : PairModel F) (h : s.pairs.lookup (j, i) = some p)
  | reporter (k : String × String) (sp : SyncPoint F) (h : s.syncpoints.lookup k = some sp)
      (r : ℕ × F × F) (hr : r ∈ sp.reporters) (hi : r.1 = i)
  | entry (k : String) (g : Group F) (h : s.groups.lookup k = some g)
      (e : ℕ × F × F) (he : e ∈ g.entries) (hi : e.1 = i)
  | mlat (icao : Icao) (t : F) (h : (s.heardMlat icao).lookup i = some t)
  | sync (icao : Icao) (t : F) (h : (s.heardSync icao).lookup i = some t)
  | offset (o : F) (h : s.stampOffset.lookup i = some o)

/-- Each container of `s'` holds slots that it held in `s`, or slots of `P`. -/
structure Adds (P : ℕ → Prop) (s s' : State F) : Prop where
  pairs : ∀ k p, s'.pairs.lookup k = some p →
    (∃ q, s.pairs.lookup k = some q) ∨ P k.1 ∧ P k.2
  syncpoints : ∀ k sp, s'.syncpoints.lookup k = some sp → ∀ r ∈ sp.reporters,
    (∃ sp', s.syncpoints.lookup k = some sp' ∧ r ∈ sp'.reporters) ∨ P r.1
  groups : ∀ k g, s'.groups.lookup k = some g → ∀ e ∈ g.entries,
    (∃ g', s.groups.lookup k = some g' ∧ e ∈ g'.entries) ∨ P e.1
  heardMlat : ∀ icao i t, (s'.heardMlat icao).lookup i = some t →
    (∃ t', (s.heardMlat icao).lookup i = some t') ∨ P i
  heardSync : ∀ icao i t, (s'.heardSync icao).lookup i = some t →
    (∃ t', (s.heardSync icao).lookup i = some t') ∨ P i
  stampOffset : ∀ i o, s'.stampOffset.lookup i = some o →
    (∃ o', s.stampOffset.lookup i = some o') ∨ P i

namespace Adds

variable {P : ℕ → Prop}

theorem refl (s : State F) : Adds P s s where
  pairs _ p h := Or.inl ⟨p, h⟩
  syncpoints _ sp h _ hr := Or.inl ⟨sp, h, hr⟩
  groups _ g h _ he := Or.inl ⟨g, h, he⟩
  heardMlat _ _ t h := Or.inl ⟨t, h⟩
  heardSync _ _ t h := Or.inl ⟨t, h⟩
  stampOffset _ o h := Or.inl ⟨o, h⟩

theorem mono {Q : ℕ → Prop} {s s' : State F} (h : Adds P s s') (hPQ : ∀ i, P i → Q i) :
    Adds Q s s' where
  pairs k p hk := (h.pairs k p hk).imp_right fun h1 => ⟨hPQ _ h1.1, hPQ _ h1.2⟩
  syncpoints k sp hk r hr := (h.syncpoints k sp hk r hr).imp_right (hPQ _)
  groups k g hk e he := (h.groups k g hk e he).imp_right (hPQ _)
  heardMlat k i t ht := (h.heardMlat k i t ht).imp_right (hPQ _)
  heardSync k i t ht := (h.heardSync k i t ht).imp_right (hPQ _)
  stampOffset i o ho := (h.stampOffset i o ho).imp_right (hPQ _)

theorem trans {s s' s'' : State F} (h : Adds P s s') (h' : Adds P s' s'') : Adds P s s'' where
  pairs k p hk := (h'.pairs k p hk).elim (fun ⟨q, hq⟩ => h.pairs k q hq) Or.inr
  syncpoints k sp hk r hr :=
    (h'.syncpoints k sp hk r hr).elim (fun ⟨sp', h1, h2⟩ => h.syncpoints k sp' h1 r h2) Or.inr
  groups k g hk e he :=
    (h'.groups k g hk e he).elim (fun ⟨g', h1, h2⟩ => h.groups k g' h1 e h2) Or.inr
  heardMlat k i t ht :=
    (h'.heardMlat k i t ht).elim (fun ⟨t', h1⟩ => h.heardMlat k i t' h1) Or.inr
  heardSync k i t ht :=
    (h'.heardSync k i t ht).elim (fun ⟨t', h1⟩ => h.heardSync k i t' h1) Or.inr
  stampOffset i o ho :=
    (h'.stampOffset i o ho).elim (fun ⟨o', h1⟩ => h.stampOffset i o' h1) Or.inr

/-- A slot mentioned after the step was mentioned before it, or is one of `P`. -/
theorem mentions {s s' : State F} (h : Adds P s s') {i : ℕ} (hi : s'.Mentions i) :
    s.Mentions i ∨ P i := by
  cases hi with
  | pairFrom j p hp =>
    rcases h.pairs (i, j) p hp with ⟨q, hq⟩ | h1
    · exact Or.inl (.pairFrom j q hq)
    · exact Or.inr h1.1
  | pairTo j p hp =>
    rcases h.pairs (j, i) p hp with ⟨q, hq⟩ | h1
    · exact Or.inl (.pairTo j q hq)
    · exact Or.inr h1.2
  | reporter k sp hk r hr hi =>
    rcases h.syncpoints k sp hk r hr with ⟨sp', h1, h2⟩ | h1
    · exact Or.inl (.reporter k sp' h1 r h2 hi)
    · exact Or.inr (hi ▸ h1)
  | entry k g hk e he hi =>
    rcases h.groups k g hk e he with ⟨g', h1, h2⟩ | h1
    · exact Or.inl (.entry k g' h1 e h2 hi)
    · exact Or.inr (hi ▸ h1)
  | mlat icao t ht =>
    rcases h.heardMlat icao i t ht with ⟨t', h1⟩ | h1
    · exact Or.inl (.mlat icao t' h1)
    · exact Or.inr h1
  | sync icao t ht =>
    rcases h.heardSync icao i t ht with ⟨t', h1⟩ | h1
    · exact Or.inl (.sync icao t' h1)
    · exact Or.inr h1
  | offset o ho =>
    rcases h.stampOffset i o ho with ⟨o', h1⟩ | h1
    · exact Or.inl (.offset o' h1)
    · exact Or.inr h1

end Adds

/-! ## The maps of an aircraft's log -/

variable [F64 F]

section
variable {s s' : State F} {icao : Icao} {f : AcLog F → AcLog F}

theorem heardMlat_upsert (hs : s'.acLog = s.acLog.upsert icao AcLog.default f)
    (g : HashMap ℕ F → HashMap ℕ F) (hf : ∀ a, (f a).rxMlat = g a.rxMlat) (k : Icao) :
    s'.heardMlat k = if k = icao then g (s.heardMlat k) else s.heardMlat k := by
  unfold heardMlat
  rw [hs, Finmap.lookup_upsert]
  by_cases hk : k = icao
  · rw [if_pos hk, if_pos hk, Option.map_some, Option.getD_some, hf, hk]
    cases s.acLog.lookup icao with
    | none => rfl
    | some a => rfl
  · rw [if_neg hk, if_neg hk]

theorem heardSync_upsert (hs : s'.acLog = s.acLog.upsert icao AcLog.default f)
    (g : HashMap ℕ F → HashMap ℕ F) (hf : ∀ a, (f a).rxSync = g a.rxSync) (k : Icao) :
    s'.heardSync k = if k = icao then g (s.heardSync k) else s.heardSync k := by
  unfold heardSync
  rw [hs, Finmap.lookup_upsert]
  by_cases hk : k = icao
  · rw [if_pos hk, if_pos hk, Option.map_some, Option.getD_some, hf, hk]
    cases s.acLog.lookup icao with
    | none => rfl
    | some a => rfl
  · rw [if_neg hk, if_neg hk]

/-- An update of one log that keeps its interest maps keeps those of every aircraft. -/
theorem heard_upsert_eq (hs : s'.acLog = s.acLog.upsert icao AcLog.default f)
    (hf : ∀ a, (f a).rxMlat = a.rxMlat ∧ (f a).rxSync = a.rxSync) (k : Icao) :
    s'.heardMlat k = s.heardMlat k ∧ s'.heardSync k = s.heardSync k := by
  rw [heardMlat_upsert hs id (fun a => (hf a).1), heardSync_upsert hs id (fun a => (hf a).2)]
  simp

end

/-- A slot in a map after an insertion was in it, or was inserted. -/
theorem lookup_insert_cases {K V : Type} [DecidableEq K] {m : HashMap K V} {k k' : K} {v w : V}
    (h : (m.insert k v).lookup k' = some w) : m.lookup k' = some w ∨ k' = k := by
  rw [Finmap.lookup_insert_ite] at h
  split at h
  · next hk => exact Or.inr hk
  · exact Or.inl h

/-! ## Messages -/

omit [F64 F] in
theorem forgetPending_sameSlots (s : State F) (rx : ℕ) : SameSlots s (s.forgetPending rx) :=
  ⟨rfl, rfl, rfl, rfl, rfl, rfl, rfl, rfl⟩

omit [F64 F] in
theorem dropPairs_sameSlots (s : State F) (rx : ℕ) : SameSlots s (s.dropPairs rx) :=
  ⟨rfl, rfl, rfl, rfl, rfl, rfl, rfl, rfl⟩

omit [F64 F] in
theorem clockReset_sameSlots (s : State F) (r : RxRef) : SameSlots s (s.clockReset r) := by
  unfold clockReset
  split
  · exact SameSlots.refl s
  · exact (dropPairs_sameSlots s r.idx).trans (forgetPending_sameSlots _ r.idx)

theorem noteMlat_sameSlots (s : State F) (rx : ℕ) (icao : Icao) (t : F) :
    SameSlots s (s.noteMlat rx icao t) :=
  ⟨rfl, rfl, rfl, rfl, rfl, rfl, rfl, List.length_modify _ _ _⟩

omit [F64 F] in
theorem joinGroup_sameSlots (s : State F) (now : Instant) (rx : ℕ) (icao : Icao) (m : List UInt8)
    (mHex : String) (tS at' : F) : SameSlots s (s.joinGroup now rx icao m mHex tS at') :=
  ⟨rfl, rfl, rfl, rfl, rfl, rfl, rfl, rfl⟩

/-- What a message that `onMlat` takes does to the state: its altitude, its log, its group. -/
theorem onMlat_cases (env : Env F) (s : State F) (now : Instant) (r : RxRef) (t : F)
    (m : String) (at' : F) :
    s.onMlat env now r t m at' = s ∨
    s.live r = true ∧ ∃ icao alts raw tS, (∀ k, k ∈ alts → k = icao ∨ k ∈ s.altsFt) ∧
      s.onMlat env now r t m at' =
        (State.noteMlat { s with altsFt := alts } r.idx icao at').joinGroup now r.idx icao raw m
          tS at' := by
  unfold onMlat
  split
  · exact Or.inl rfl
  · next hl =>
    have hl : s.live r = true := by simpa using hl
    split
    · exact Or.inl rfl
    · split
      · exact Or.inl rfl
      · next icao alt _ =>
        cases alt with
        | none => exact Or.inr ⟨hl, icao, s.altsFt, _, _, fun _ hk => Or.inr hk, rfl⟩
        | some a =>
          exact Or.inr ⟨hl, icao, s.altsFt.insert icao a, _, _, fun _ hk => Finmap.mem_insert.1 hk,
            rfl⟩

theorem onMlat_sameSlots (env : Env F) (s : State F) (now : Instant) (r : RxRef) (t : F)
    (m : String) (at' : F) : SameSlots s (s.onMlat env now r t m at') := by
  rcases onMlat_cases env s now r t m at' with h | ⟨-, icao, alts, raw, tS, -, h⟩
  · rw [h]
    exact SameSlots.refl s
  · rw [h]
    have h0 : SameSlots s { s with altsFt := alts } := ⟨rfl, rfl, rfl, rfl, rfl, rfl, rfl, rfl⟩
    exact (h0.trans (noteMlat_sameSlots _ _ _ _)).trans (joinGroup_sameSlots _ _ _ _ _ _ _ _)

theorem noteSync_sameSlots (s : State F) (rx : ℕ) (icao : Icao) (t : F) :
    SameSlots s (s.noteSync rx icao t) :=
  ⟨rfl, rfl, rfl, rfl, rfl, rfl, rfl, List.length_modify _ _ _⟩

omit [F64 F] in
theorem notePosition_sameSlots (s : State F) (de : Df17Airborne) (pe : Geodetic F) (t : F) :
    SameSlots s (s.notePosition de pe t) :=
  ⟨rfl, rfl, rfl, rfl, rfl, rfl, rfl, rfl⟩

theorem pushPair_sameSlots (s : State F) (a b : ℕ) (ta tb : F) :
    SameSlots s (s.pushPair a b ta tb).1 :=
  ⟨rfl, rfl, rfl, rfl, rfl, rfl, rfl, rfl⟩

theorem countSync_sameSlots (s : State F) (rx : ℕ) (icao : Icao) (ok : Bool) :
    SameSlots s (s.countSync rx icao ok) :=
  ⟨rfl, rfl, rfl, rfl, rfl, rfl, List.length_modify _ _ _, rfl⟩

theorem trainOnce_sameSlots (s : State F) (icao : Icao) (rx rx2 : ℕ) (ta tb : F) :
    SameSlots s (s.trainOnce icao rx rx2 ta tb) :=
  ((pushPair_sameSlots s rx rx2 ta tb).trans (pushPair_sameSlots _ rx2 rx tb ta)).trans
    (countSync_sameSlots _ rx icao _)

theorem trainPair_sameSlots (icao : Icao) (rx : ℕ) (te to' : F) (s : State F)
    (other : ℕ × F × F) : SameSlots s (trainPair icao rx te to' s other) := by
  obtain ⟨rx2, te2, to2⟩ := other
  simp only [trainPair]
  split
  · exact SameSlots.refl s
  · exact (trainOnce_sameSlots _ _ _ _ _ _).trans (trainOnce_sameSlots _ _ _ _ _ _)

theorem trainSync_sameSlots (s : State F) (now : Instant) (rx : ℕ) (icao : Icao)
    (key : String × String) (te to' : F) :
    SameSlots s (s.trainSync now rx icao key te to') := by
  simp only [trainSync]
  split
  · exact ⟨rfl, rfl, rfl, rfl, rfl, rfl, rfl, rfl⟩
  · refine SameSlots.trans ?_ (SameSlots.foldl (trainPair_sameSlots icao rx te to') _ _)
    exact ⟨rfl, rfl, rfl, rfl, rfl, rfl, rfl, rfl⟩

/-- What a message that `onSync` takes does to the state, stage by stage. -/
theorem onSync_cases (env : Env F) (s : State F) (now : Instant) (r : RxRef) (et ot : F)
    (em om : String) (at' : F) :
    s.onSync env now r et ot em om at' = s ∨
    s.live r = true ∧ ∃ icao,
      (s.onSync env now r et ot em om at' = s.noteSync r.idx icao at' ∨
      ∃ de pe te to' s1, de.icao = icao ∧
        (s1 = (s.noteSync r.idx icao at').notePosition de pe at' ∨
          s1 = ((s.noteSync r.idx icao at').notePosition de pe at').onMlat env now r et em at') ∧
        s.onSync env now r et ot em om at' =
          s1.trainSync now r.idx icao (em, om) te to') := by
  unfold onSync
  split
  · exact Or.inl rfl
  · next hl =>
    have hl : s.live r = true := by simpa using hl
    split
    · exact Or.inl rfl
    · next de do' _ =>
      refine Or.inr ⟨hl, de.icao, ?_⟩
      simp only
      split
      · exact Or.inl rfl
      · next pe po _ =>
        refine Or.inr ⟨de, pe, _, _, _, rfl, ?_, rfl⟩
        split
        · exact Or.inr rfl
        · exact Or.inl rfl

theorem onSync_sameSlots (env : Env F) (s : State F) (now : Instant) (r : RxRef) (et ot : F)
    (em om : String) (at' : F) : SameSlots s (s.onSync env now r et ot em om at') := by
  rcases onSync_cases env s now r et ot em om at' with
    h | ⟨-, icao, h | ⟨de, pe, te, to', s1, -, h1, h⟩⟩
  · rw [h]
    exact SameSlots.refl s
  · rw [h]
    exact noteSync_sameSlots s _ _ _
  · rw [h]
    refine SameSlots.trans ?_ (trainSync_sameSlots _ _ _ _ _ _ _)
    have h2 := (noteSync_sameSlots s r.idx icao at').trans (notePosition_sameSlots _ de pe at')
    rcases h1 with rfl | rfl
    · exact h2
    · exact h2.trans (onMlat_sameSlots _ _ _ _ _ _ _)

theorem receiverStats_sameSlots (s : State F) (r : RxRef) : SameSlots s (s.receiverStats r).1 := by
  unfold receiverStats
  split
  · exact SameSlots.refl s
  · exact ⟨rfl, rfl, rfl, rfl, rfl, rfl, List.length_set, rfl⟩

/-! ## Messages mention their own slot and its fellow reporters -/

section
variable {P : ℕ → Prop}

omit [F64 F] in
theorem forgetPending_adds (s : State F) (rx : ℕ) :
    Adds P s (s.forgetPending rx) := by
  refine { Adds.refl s with syncpoints := ?_, groups := ?_ }
  · intro k sp h r hr
    simp only [forgetPending, Finmap.lookup_mapVals, Option.map_eq_some_iff] at h
    obtain ⟨sp', h1, rfl⟩ := h
    exact Or.inl ⟨sp', h1, (List.mem_filter.1 hr).1⟩
  · intro k g h e he
    simp only [forgetPending, Finmap.lookup_mapVals, Option.map_eq_some_iff] at h
    obtain ⟨g', h1, rfl⟩ := h
    exact Or.inl ⟨g', h1, (List.mem_filter.1 he).1⟩

omit [F64 F] in
theorem dropPairs_adds (s : State F) (rx : ℕ) :
    Adds P s (s.dropPairs rx) := by
  refine { Adds.refl s with pairs := ?_ }
  intro k p h
  simp only [dropPairs, Finmap.lookup_retain, Option.filter_eq_some_iff] at h
  exact Or.inl ⟨p, h.1⟩

omit [F64 F] in
theorem clockReset_adds (s : State F) (r : RxRef) :
    Adds P s (s.clockReset r) := by
  unfold clockReset
  split
  · exact Adds.refl s
  · exact (dropPairs_adds s r.idx).trans (forgetPending_adds _ r.idx)

omit [F64 F] in
/-- A log that only gains the interest of `rx` mentions no other slot. -/
theorem heard_insert_adds {rx : ℕ} (hP : P rx) (s s' : State F)
    (h0 : s'.pairs = s.pairs ∧ s'.syncpoints = s.syncpoints ∧ s'.groups = s.groups ∧
      s'.stampOffset = s.stampOffset)
    (hm : ∀ k, s'.heardMlat k = s.heardMlat k ∨ ∃ t, s'.heardMlat k = (s.heardMlat k).insert rx t)
    (hs : ∀ k, s'.heardSync k = s.heardSync k ∨
      ∃ t, s'.heardSync k = (s.heardSync k).insert rx t) :
    Adds P s s' := by
  obtain ⟨h1, h2, h3, h4⟩ := h0
  refine
    { pairs := by rw [h1]; exact fun _ p h => Or.inl ⟨p, h⟩
      syncpoints := by rw [h2]; exact fun _ sp h _ hr => Or.inl ⟨sp, h, hr⟩
      groups := by rw [h3]; exact fun _ g h _ he => Or.inl ⟨g, h, he⟩
      heardMlat := ?_, heardSync := ?_
      stampOffset := by rw [h4]; exact fun _ o h => Or.inl ⟨o, h⟩ }
  · intro k i t h
    rcases hm k with h5 | ⟨t', h5⟩
    · exact Or.inl ⟨t, h5 ▸ h⟩
    · rcases lookup_insert_cases (h5 ▸ h) with h6 | h6
      · exact Or.inl ⟨t, h6⟩
      · exact Or.inr (h6 ▸ hP)
  · intro k i t h
    rcases hs k with h5 | ⟨t', h5⟩
    · exact Or.inl ⟨t, h5 ▸ h⟩
    · rcases lookup_insert_cases (h5 ▸ h) with h6 | h6
      · exact Or.inl ⟨t, h6⟩
      · exact Or.inr (h6 ▸ hP)

theorem noteMlat_acLog (s : State F) (rx : ℕ) (icao : Icao) (t : F) :
    (s.noteMlat rx icao t).acLog = s.acLog.upsert icao AcLog.default fun a =>
      { a with seen := t, mlatMsgs := a.mlatMsgs + 1, rxMlat := a.rxMlat.insert rx t } := rfl

theorem noteSync_acLog (s : State F) (rx : ℕ) (icao : Icao) (t : F) :
    (s.noteSync rx icao t).acLog = s.acLog.upsert icao AcLog.default fun a =>
      { a with seen := t, rxSync := a.rxSync.insert rx t } := rfl

theorem countSync_acLog (s : State F) (rx : ℕ) (icao : Icao) (ok : Bool) :
    (s.countSync rx icao ok).acLog = s.acLog.upsert icao AcLog.default fun a : AcLog F =>
      if ok then { a with syncGood := a.syncGood + 1.0 }
      else { a with syncBad := a.syncBad + 1.0 } := rfl

theorem noteMlat_adds (s : State F) {rx : ℕ} (icao : Icao) (t : F) (hP : P rx) :
    Adds P s (s.noteMlat rx icao t) := by
  refine heard_insert_adds hP s _ ⟨rfl, rfl, rfl, rfl⟩ (fun k => ?_) (fun k => ?_)
  · rw [heardMlat_upsert (noteMlat_acLog s rx icao t) (fun m => m.insert rx t) (fun _ => rfl)]
    split
    · exact Or.inr ⟨t, rfl⟩
    · exact Or.inl rfl
  · rw [heardSync_upsert (noteMlat_acLog s rx icao t) id (fun _ => rfl)]
    exact Or.inl (ite_self _)

theorem noteSync_adds (s : State F) {rx : ℕ} (icao : Icao) (t : F) (hP : P rx) :
    Adds P s (s.noteSync rx icao t) := by
  refine heard_insert_adds hP s _ ⟨rfl, rfl, rfl, rfl⟩ (fun k => ?_) (fun k => ?_)
  · rw [heardMlat_upsert (noteSync_acLog s rx icao t) id (fun _ => rfl)]
    exact Or.inl (ite_self _)
  · rw [heardSync_upsert (noteSync_acLog s rx icao t) (fun m => m.insert rx t) (fun _ => rfl)]
    split
    · exact Or.inr ⟨t, rfl⟩
    · exact Or.inl rfl

omit [F64 F] in
theorem joinGroup_adds (s : State F) (now : Instant) {rx : ℕ} (icao : Icao)
    (m : List UInt8) (mHex : String) (tS at' : F) (hP : P rx) :
    Adds P s (s.joinGroup now rx icao m mHex tS at') := by
  refine { Adds.refl s with groups := ?_ }
  intro k g h e he
  simp only [joinGroup, Finmap.lookup_upsert] at h
  split at h
  · next hk =>
    cases h
    rcases List.mem_append.1 he with h1 | h1
    · cases hg : s.groups.lookup mHex with
      | none => rw [hg] at h1; cases h1
      | some g => rw [hg] at h1; exact Or.inl ⟨g, hk ▸ hg, h1⟩
    · rw [List.mem_singleton.1 h1]
      exact Or.inr hP
  · exact Or.inl ⟨g, h, he⟩

theorem onMlat_adds (env : Env F) (s : State F) (now : Instant) (r : RxRef) (t : F)
    (m : String) (at' : F) (hP : P r.idx) : Adds P s (s.onMlat env now r t m at') := by
  rcases onMlat_cases env s now r t m at' with h | ⟨-, icao, alts, raw, tS, -, h⟩
  · rw [h]
    exact Adds.refl s
  · rw [h]
    have h0 : Adds P s { s with altsFt := alts } := { Adds.refl s with }
    exact (h0.trans (noteMlat_adds _ _ _ hP)).trans (joinGroup_adds _ _ _ _ _ _ _ hP)

omit [F64 F] in
theorem notePosition_adds (s : State F) (de : Df17Airborne) (pe : Geodetic F) (t : F) :
    Adds P s (s.notePosition de pe t) :=
  { Adds.refl s with }

theorem pushPair_adds (s : State F) {a b : ℕ} (ta tb : F) (ha : P a) (hb : P b) :
    Adds P s (s.pushPair a b ta tb).1 := by
  refine { Adds.refl s with pairs := ?_ }
  intro k p h
  rcases lookup_insert_cases h with h1 | h1
  · exact Or.inl ⟨p, h1⟩
  · rw [h1]
    exact Or.inr ⟨ha, hb⟩

theorem countSync_adds (s : State F) (rx : ℕ) (icao : Icao) (ok : Bool) :
    Adds P s (s.countSync rx icao ok) := by
  have hh : ∀ k, (s.countSync rx icao ok).heardMlat k = s.heardMlat k ∧
      (s.countSync rx icao ok).heardSync k = s.heardSync k :=
    heard_upsert_eq (countSync_acLog s rx icao ok) (by intro a; cases ok <;> exact ⟨rfl, rfl⟩)
  exact
    { Adds.refl s with
      heardMlat := fun k i t h => Or.inl ⟨t, (hh k).1 ▸ h⟩
      heardSync := fun k i t h => Or.inl ⟨t, (hh k).2 ▸ h⟩ }

theorem trainOnce_adds (s : State F) (icao : Icao) {rx rx2 : ℕ} (ta tb : F)
    (h1 : P rx) (h2 : P rx2) : Adds P s (s.trainOnce icao rx rx2 ta tb) :=
  ((pushPair_adds s ta tb h1 h2).trans (pushPair_adds _ tb ta h2 h1)).trans
    (countSync_adds _ rx icao _)

theorem trainPair_adds (icao : Icao) {rx : ℕ} (te to' : F) (s : State F)
    (other : ℕ × F × F) (h1 : P rx) (h2 : P other.1) :
    Adds P s (trainPair icao rx te to' s other) := by
  obtain ⟨rx2, te2, to2⟩ := other
  simp only [trainPair]
  split
  · exact Adds.refl s
  · exact (trainOnce_adds _ _ _ _ h1 h2).trans (trainOnce_adds _ _ _ _ h1 h2)

theorem foldl_trainPair_adds (icao : Icao) {rx : ℕ} (te to' : F) (s : State F)
    (others : List (ℕ × F × F)) (h1 : P rx) (h2 : ∀ o ∈ others, P o.1) :
    Adds P s (others.foldl (trainPair icao rx te to') s) := by
  induction others generalizing s with
  | nil => exact Adds.refl s
  | cons o others ih =>
    have h3 : ∀ o ∈ others, P o.1 := fun o ho => h2 o (List.mem_cons_of_mem _ ho)
    have h4 : P o.1 := h2 o List.mem_cons_self
    exact (trainPair_adds icao te to' s o h1 h4).trans (ih _ h3)

omit [F64 F] in
/-- The reporters of a sync point, old ones and the newcomer, are the only ones a report adds. -/
theorem syncpointAt_reporter {s : State F} {now : Instant} {key : String × String}
    {r : ℕ × F × F} (hr : r ∈ (s.syncpointAt now key).reporters) :
    ∃ sp, s.syncpoints.lookup key = some sp ∧ r ∈ sp.reporters := by
  unfold syncpointAt at hr
  cases h : s.syncpoints.lookup key with
  | none => rw [h] at hr; cases hr
  | some sp => rw [h] at hr; exact ⟨sp, rfl, hr⟩

/-- A report adds itself, and pairs with reporters the sync point already has. -/
theorem trainSync_adds (s : State F) (now : Instant) (rx : ℕ) (icao : Icao)
    (key : String × String) (te to' : F) :
    Adds (fun i => i = rx ∨ s.Mentions i) s (s.trainSync now rx icao key te to') := by
  simp only [trainSync]
  split
  · refine { Adds.refl s with syncpoints := ?_ }
    intro k sp h r hr
    rcases lookup_insert_cases h with h1 | h1
    · exact Or.inl ⟨sp, h1, hr⟩
    · subst h1
      rw [Finmap.lookup_insert] at h
      cases h
      exact Or.inl (syncpointAt_reporter hr)
  · have hold : ∀ o ∈ (s.syncpointAt now key).reporters, s.Mentions o.1 := by
      intro o ho
      obtain ⟨sp, h1, h2⟩ := syncpointAt_reporter ho
      exact .reporter key sp h1 o h2 rfl
    refine Adds.trans ?_ (foldl_trainPair_adds icao te to' _ (s.syncpointAt now key).reporters
      (Or.inl rfl) (fun o ho => Or.inr (hold o ho)))
    refine { Adds.refl s with syncpoints := ?_ }
    intro k sp h r hr
    rcases lookup_insert_cases h with h1 | h1
    · exact Or.inl ⟨sp, h1, hr⟩
    · subst h1
      rw [Finmap.lookup_insert] at h
      cases h
      rcases List.mem_append.1 hr with h2 | h2
      · exact Or.inl (syncpointAt_reporter h2)
      · rw [List.mem_singleton.1 h2]
        exact Or.inr (Or.inl rfl)

theorem onSync_adds (env : Env F) (s : State F) (now : Instant) (r : RxRef) (et ot : F)
    (em om : String) (at' : F) :
    Adds (fun i => i = r.idx ∨ s.Mentions i) s (s.onSync env now r et ot em om at') := by
  rcases onSync_cases env s now r et ot em om at' with
    h | ⟨-, icao, h | ⟨de, pe, te, to', s1, -, h1, h⟩⟩
  · rw [h]
    exact Adds.refl s
  · rw [h]
    exact noteSync_adds s _ _ (Or.inl rfl)
  · have h2 : Adds (· = r.idx) s ((s.noteSync r.idx icao at').notePosition de pe at') := by
      refine Adds.trans ?_ (notePosition_adds _ de pe at')
      exact noteSync_adds s icao at' rfl
    have h3 : Adds (· = r.idx) s s1 := by
      rcases h1 with rfl | rfl
      · exact h2
      · exact h2.trans (onMlat_adds _ _ _ _ _ _ _ rfl)
    rw [h]
    refine (h3.mono fun _ hi => Or.inl hi).trans
      ((trainSync_adds s1 now r.idx icao _ te to').mono ?_)
    rintro i (hi | hi)
    · exact Or.inl hi
    · exact (h3.mentions hi).symm

theorem receiverStats_adds (s : State F) (r : RxRef) :
    Adds P s (s.receiverStats r).1 := by
  unfold receiverStats
  split
  · exact Adds.refl s
  · exact { Adds.refl s with }

end

end State

end Mlatd
