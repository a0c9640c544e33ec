/-
  What the reports of one event do to the models of the pairs (state.rs, on_sync).

  A report trains its receiver against everyone who reported the event before. `Trained` says what
  a set of reports comes to, pair by pair and without an order: in both directions of each pair one
  push of the even times, then one of the odd. One more report extends it (`Trained.concat`), so
  the order of the reports does not matter.
-/
import Mlatd.Registry.Invariant
import Mlatd.ClockDomain.Hygiene

namespace Mlatd

variable {F : Type} [F64 F]

/-- What a sync point keeps of a report: the slot, the even and the odd transmit time. -/
abbrev Heard (F : Type) := ℕ × F × F

/-- The even, then the odd observation of two reports. -/
def PairModel.pushBoth (m : PairModel F) (p q : Heard F) : PairModel F :=
  ((m.push p.2.1 q.2.1).1.push p.2.2 q.2.2).1

/-- The model of a pair, a fresh one where there is none. -/
def modelOf (pairs : HashMap (ℕ × ℕ) (PairModel F)) (k : ℕ × ℕ) : PairModel F :=
  (pairs.lookup k).getD PairModel.default

/-- The reports `qs` of one event have trained each other, and nothing else. -/
structure Trained (old new : HashMap (ℕ × ℕ) (PairModel F)) (qs : List (Heard F)) : Prop where
  both : ∀ p ∈ qs, ∀ q ∈ qs, p.1 ≠ q.1 →
    new.lookup (p.1, q.1) = some ((modelOf old (p.1, q.1)).pushBoth p q)
  rest : ∀ k : ℕ × ℕ, (∀ p ∈ qs, ∀ q ∈ qs, p.1 ≠ q.1 → k ≠ (p.1, q.1)) →
    new.lookup k = old.lookup k

namespace Trained

variable {old new new' : HashMap (ℕ × ℕ) (PairModel F)} {qs qs' : List (Heard F)}

theorem nil : Trained old old [] := ⟨fun _ hp => (List.not_mem_nil hp).elim, fun _ _ => rfl⟩

/-- Only the set of the reports counts. -/
theorem of_mem_iff (h : Trained old new qs) (hqs : ∀ p, p ∈ qs' ↔ p ∈ qs) :
    Trained old new qs' where
  both p hp q hq := h.both p ((hqs p).1 hp) q ((hqs q).1 hq)
  rest k hk := h.rest k fun p hp q hq => hk p ((hqs p).2 hp) q ((hqs q).2 hq)

/-- What the reports come to is determined. -/
theorem unique (h : Trained old new qs) (h' : Trained old new' qs) : new' = new := by
  apply Finmap.ext_lookup
  intro k
  by_cases hk : ∃ p ∈ qs, ∃ q ∈ qs, p.1 ≠ q.1 ∧ k = (p.1, q.1)
  · obtain ⟨p, hp, q, hq, hne, rfl⟩ := hk
    rw [h.both p hp q hq hne, h'.both p hp q hq hne]
  · have hrest : ∀ p ∈ qs, ∀ q ∈ qs, p.1 ≠ q.1 → k ≠ (p.1, q.1) := fun p hp q hq hne heq =>
      hk ⟨p, hp, q, hq, hne, heq⟩
    rw [h.rest k hrest, h'.rest k hrest]

end Trained

namespace State

/-! ## One report -/

theorem trainOnce_lookup (s : State F) (icao : Icao) {rx rx2 : ℕ} (hne : rx2 ≠ rx) (ta tb : F)
    (k : ℕ × ℕ) : (s.trainOnce icao rx rx2 ta tb).pairs.lookup k =
      if k = (rx, rx2) then some ((modelOf s.pairs k).push ta tb).1
      else if k = (rx2, rx) then some ((modelOf s.pairs k).push tb ta).1
      else s.pairs.lookup k := by
  have hswap : ((rx2, rx) : ℕ × ℕ) ≠ (rx, rx2) := fun h => hne (congrArg Prod.fst h)
  have h : (s.trainOnce icao rx rx2 ta tb).pairs.lookup k =
      if k = (rx2, rx) then some ((((s.pushPair rx rx2 ta tb).1.pairs.lookup (rx2, rx)).getD
        PairModel.default).push tb ta).1
      else (s.pushPair rx rx2 ta tb).1.pairs.lookup k :=
    Finmap.lookup_insert_ite _ _ _ _
  have h1 (k : ℕ × ℕ) : (s.pushPair rx rx2 ta tb).1.pairs.lookup k =
      if k = (rx, rx2) then some ((modelOf s.pairs (rx, rx2)).push ta tb).1
      else s.pairs.lookup k :=
    Finmap.lookup_insert_ite _ _ _ _
  rw [h, h1, h1, if_neg hswap]
  by_cases hk : k = (rx, rx2)
  · rw [hk, if_neg (Ne.symm hswap), if_pos rfl, if_pos rfl]
  · rw [if_neg hk, if_neg hk]
    by_cases hk' : k = (rx2, rx)
    · rw [hk', if_pos rfl, if_pos rfl]
      rfl
    · rw [if_neg hk', if_neg hk']

/-- A report trained against one earlier report of a live receiver. -/
theorem trainPair_lookup (s : State F) (icao : Icao) (p q : Heard F) (hne : q.1 ≠ p.1)
    (halive : s.isAlive q.1 = true) (k : ℕ × ℕ) :
    (trainPair icao p.1 p.2.1 p.2.2 s q).pairs.lookup k =
      if k = (p.1, q.1) then some ((modelOf s.pairs k).pushBoth p q)
      else if k = (q.1, p.1) then some ((modelOf s.pairs k).pushBoth q p)
      else s.pairs.lookup k := by
  have h : trainPair icao p.1 p.2.1 p.2.2 s q =
      (s.trainOnce icao p.1 q.1 p.2.1 q.2.1).trainOnce icao p.1 q.1 p.2.2 q.2.2 := by
    unfold trainPair
    exact if_neg (not_or.2 ⟨hne, by rw [halive]; decide⟩)
  rw [h, trainOnce_lookup _ icao hne]
  unfold modelOf
  rw [trainOnce_lookup s icao hne]
  by_cases hk : k = (p.1, q.1)
  · simp only [if_pos hk]
    rfl
  · by_cases hk' : k = (q.1, p.1)
    · simp only [if_neg hk, if_pos hk']
      rfl
    · simp only [if_neg hk, if_neg hk']

/-- A report trained against all earlier reports, of other receivers and of live ones. -/
theorem foldl_trainPair_lookup (icao : Icao) (p : Heard F) (qs : List (Heard F)) (s : State F)
    (hne : ∀ q ∈ qs, q.1 ≠ p.1) (hqs : (qs.map Prod.fst).Nodup)
    (halive : ∀ q ∈ qs, s.isAlive q.1 = true) :
    (∀ q ∈ qs,
      (qs.foldl (trainPair icao p.1 p.2.1 p.2.2) s).pairs.lookup (p.1, q.1) =
          some ((modelOf s.pairs (p.1, q.1)).pushBoth p q) ∧
        (qs.foldl (trainPair icao p.1 p.2.1 p.2.2) s).pairs.lookup (q.1, p.1) =
          some ((modelOf s.pairs (q.1, p.1)).pushBoth q p)) ∧
    ∀ k, (∀ q ∈ qs, k ≠ (p.1, q.1) ∧ k ≠ (q.1, p.1)) →
      (qs.foldl (trainPair icao p.1 p.2.1 p.2.2) s).pairs.lookup k = s.pairs.lookup k := by
  induction qs generalizing s with
  | nil => exact ⟨fun _ hq => (List.not_mem_nil hq).elim, fun _ _ => rfl⟩
  | cons q qs ih =>
    rw [List.map_cons, List.nodup_cons] at hqs
    have hfirst := trainPair_lookup s icao p q (hne q List.mem_cons_self)
      (halive q List.mem_cons_self)
    have halive' : ∀ r ∈ qs, (trainPair icao p.1 p.2.1 p.2.2 s q).isAlive r.1 = true := by
      intro r hr
      rw [(trainPair_sameSlots icao p.1 p.2.1 p.2.2 s q).isAlive]
      exact halive r (List.mem_cons_of_mem q hr)
    obtain ⟨htrained, hrest⟩ := ih (trainPair icao p.1 p.2.1 p.2.2 s q)
      (fun r hr => hne r (List.mem_cons_of_mem q hr)) hqs.2 halive'
    have hq := hne q List.mem_cons_self
    have hother : ∀ r ∈ qs, r.1 ≠ q.1 := fun r hr h =>
      hqs.1 (h ▸ List.mem_map_of_mem (f := Prod.fst) hr)
    rw [List.foldl_cons]
    refine ⟨fun r hr => ?_, fun k hk => ?_⟩
    · rcases List.mem_cons.1 hr with rfl | hr
      · have hkeep (k : ℕ × ℕ) (hk : k = (p.1, r.1) ∨ k = (r.1, p.1)) :
            (qs.foldl (trainPair icao p.1 p.2.1 p.2.2)
              (trainPair icao p.1 p.2.1 p.2.2 s r)).pairs.lookup k =
            (trainPair icao p.1 p.2.1 p.2.2 s r).pairs.lookup k := by
          refine hrest k fun q hq => ?_
          have h1 := hother q hq
          have h2 := hne q (List.mem_cons_of_mem r hq)
          rcases hk with rfl | rfl
          · simp only [ne_eq, Prod.mk.injEq]
            omega
          · simp only [ne_eq, Prod.mk.injEq]
            omega
        rw [hkeep _ (Or.inl rfl), hkeep _ (Or.inr rfl), hfirst, hfirst]
        simp [hq]
      · have h1 := htrained r hr
        have h2 := hother r hr
        have h3 := hne r (List.mem_cons_of_mem q hr)
        unfold modelOf at h1 ⊢
        rw [hfirst, hfirst] at h1
        simpa [h2, h3, Ne.symm hq] using h1
    · have hk' := hk q List.mem_cons_self
      rw [hrest k fun r hr => hk r (List.mem_cons_of_mem q hr), hfirst, if_neg hk'.1, if_neg hk'.2]

/-! ## A message -/

/-- The reports at the sync point `key`. -/
def reportersAt (s : State F) (key : String × String) : List (Heard F) :=
  ((s.syncpoints.lookup key).map SyncPoint.reporters).getD []

/-- The transmit times of a sync message, with the slot it came from. -/
def heardFrom (s : State F) (pe po : Geodetic F) (r : RxRef) (et ot : F) : Heard F :=
  (r.idx, transmitTime (s.receiver r.idx) et pe, transmitTime (s.receiver r.idx) ot po)

/-- Up to its training, an accepted message of a live receiver changes neither slots nor pairs nor
    sync points. -/
theorem onSync_eq_trainSync (env : Env F) (s : State F) (now : Instant) {r : RxRef} (et ot : F)
    {em om : String} (at' : F) {de do' : Df17Airborne} {pe po : Geodetic F}
    (hl : s.live r = true) (hd : decodeSync env em om = some (de, do'))
    (hp : syncPositions de do' = some (pe, po)) :
    ∃ s1, SameSlots s s1 ∧ s1.pairs = s.pairs ∧ s1.syncpoints = s.syncpoints ∧
      s.onSync env now r et ot em om at' =
        s1.trainSync now r.idx de.icao (em, om) (s.heardFrom pe po r et ot).2.1
          (s.heardFrom pe po r et ot).2.2 := by
  have hslots := (noteSync_sameSlots s r.idx de.icao at').trans
    (notePosition_sameSlots _ de pe at')
  unfold onSync
  rw [hl, hd]
  simp only [Bool.not_true, Bool.false_eq_true, if_false, hp]
  split
  · exact ⟨_, hslots.trans (onMlat_sameSlots env _ now r et em at'), onMlat_pairs env _ now r et em
      at', onMlat_syncpoints env _ now r et em at', rfl⟩
  · exact ⟨_, hslots, rfl, rfl, rfl⟩

/-- A report past the reporters' places trains nobody. -/
theorem trainSync_of_full (s : State F) (now : Instant) (rx : ℕ) (icao : Icao)
    (key : String × String) (te to' : F) (h : maxReporters ≤ (s.reportersAt key).length) :
    (s.trainSync now rx icao key te to').pairs = s.pairs ∧
      ∀ k, (s.trainSync now rx icao key te to').reportersAt k = s.reportersAt k := by
  have hat := syncpointAt_reporters s now key
  unfold trainSync
  simp only
  rw [if_pos (by rw [hat]; exact h)]
  refine ⟨rfl, fun k => ?_⟩
  unfold reportersAt
  simp only
  rw [Finmap.lookup_insert_ite]
  split
  · next hk =>
    rw [hk, Option.map_some, Option.getD_some, hat]
  · rfl

/-- A report with a place joins its sync point and trains against those there before. -/
theorem trainSync_of_room (s : State F) (now : Instant) (rx : ℕ) (icao : Icao)
    (key : String × String) (te to' : F) (h : (s.reportersAt key).length < maxReporters) :
    (∃ s1, SameSlots s s1 ∧ s1.pairs = s.pairs ∧
        (s.trainSync now rx icao key te to').pairs =
          ((s.reportersAt key).foldl (trainPair icao rx te to') s1).pairs) ∧
      ∀ k, (s.trainSync now rx icao key te to').reportersAt k =
        if k = key then s.reportersAt key ++ [(rx, te, to')] else s.reportersAt k := by
  have hat := syncpointAt_reporters s now key
  unfold trainSync
  simp only
  rw [if_neg (by rw [hat]; exact not_le.2 h), hat]
  refine ⟨⟨_, ?_, ?_, rfl⟩, fun k => ?_⟩
  · exact ⟨rfl, rfl, rfl, rfl, rfl, rfl, rfl, rfl⟩
  · rfl
  unfold reportersAt
  rw [(foldl_trainPair_sameRest icao rx te to' _ _).syncpoints]
  simp only
  rw [Finmap.lookup_insert_ite]
  split
  · rfl
  · rfl

/-! ## The reports of one event -/

end State

/-- What a sync message carries besides its frames. -/
structure SyncReport (F : Type) where
  now : Instant
  rx : RxRef
  et : F
  ot : F
  atScaled : F

namespace State

/-- The reports of the event `em`, `om`, one after the other. -/
def onReports (env : Env F) (em om : String) (s : State F) (rs : List (SyncReport F)) : State F :=
  rs.foldl (fun s r => s.onSync env r.now r.rx r.et r.ot em om r.atScaled) s

end State

/-- One more report: the new receiver is trained against each of those before, and these are not
    trained again. -/
theorem Trained.concat {old new new' : HashMap (ℕ × ℕ) (PairModel F)} {qs : List (Heard F)}
    {p : Heard F} (h : Trained old new qs) (hne : ∀ q ∈ qs, q.1 ≠ p.1)
    (hboth : ∀ q ∈ qs,
      new'.lookup (p.1, q.1) = some ((modelOf new (p.1, q.1)).pushBoth p q) ∧
        new'.lookup (q.1, p.1) = some ((modelOf new (q.1, p.1)).pushBoth q p))
    (hrest : ∀ k, (∀ q ∈ qs, k ≠ (p.1, q.1) ∧ k ≠ (q.1, p.1)) → new'.lookup k = new.lookup k) :
    Trained old new' (qs ++ [p]) := by
  have hkeep : ∀ q ∈ qs, new.lookup (p.1, q.1) = old.lookup (p.1, q.1) ∧
      new.lookup (q.1, p.1) = old.lookup (q.1, p.1) := by
    intro q _
    refine ⟨h.rest _ fun a ha b _ _ heq => ?_, h.rest _ fun a _ b hb _ heq => ?_⟩
    · exact hne a ha (Prod.mk.inj heq).1.symm
    · exact hne b hb (Prod.mk.inj heq).2.symm
  refine ⟨fun a ha b hb hab => ?_, fun k hk => ?_⟩
  · rcases List.mem_append.1 ha with ha | ha
    · rcases List.mem_append.1 hb with hb | hb
      · rw [hrest, h.both a ha b hb hab]
        intro q _
        have h1 := hne a ha
        have h2 := hne b hb
        simp only [ne_eq, Prod.mk.injEq]
        omega
      · rw [List.mem_singleton.1 hb, (hboth a ha).2]
        unfold modelOf
        rw [(hkeep a ha).2]
    · rcases List.mem_append.1 hb with hb | hb
      · rw [List.mem_singleton.1 ha, (hboth b hb).1]
        unfold modelOf
        rw [(hkeep b hb).1]
      · rw [List.mem_singleton.1 ha, List.mem_singleton.1 hb] at hab
        exact absurd rfl hab
  · have hp : p ∈ qs ++ [p] := List.mem_append_right _ (List.mem_singleton_self p)
    have hold : ∀ q ∈ qs, q ∈ qs ++ [p] := fun q hq => List.mem_append_left _ hq
    rw [hrest k fun q hq => ⟨hk p hp q (hold q hq) (Ne.symm (hne q hq)),
      hk q (hold q hq) p hp (hne q hq)⟩]
    exact h.rest k fun a ha b hb => hk a (hold a ha) b (hold b hb)

namespace State

/-- A report with a place joins its sync point, and is trained against each live reporter there. -/
theorem trainSync_trained (s : State F) (now : Instant) (icao : Icao) (key : String × String)
    (p : Heard F) {qs : List (Heard F)} (hat : s.reportersAt key = qs)
    (hroom : qs.length < maxReporters) (hne : ∀ q ∈ qs, q.1 ≠ p.1)
    (hnodup : (qs.map Prod.fst).Nodup) (halive : ∀ q ∈ qs, s.isAlive q.1 = true) :
    (s.trainSync now p.1 icao key p.2.1 p.2.2).reportersAt key = qs ++ [p] ∧
      (∀ q ∈ qs,
        (s.trainSync now p.1 icao key p.2.1 p.2.2).pairs.lookup (p.1, q.1) =
            some ((modelOf s.pairs (p.1, q.1)).pushBoth p q) ∧
          (s.trainSync now p.1 icao key p.2.1 p.2.2).pairs.lookup (q.1, p.1) =
            some ((modelOf s.pairs (q.1, p.1)).pushBoth q p)) ∧
      ∀ k, (∀ q ∈ qs, k ≠ (p.1, q.1) ∧ k ≠ (q.1, p.1)) →
        (s.trainSync now p.1 icao key p.2.1 p.2.2).pairs.lookup k = s.pairs.lookup k := by
  obtain ⟨⟨s1, hslots, hpairs, htrain⟩, hjoin⟩ := trainSync_of_room s now p.1 icao key p.2.1 p.2.2
    (hat.symm ▸ hroom)
  have halive1 : ∀ q ∈ qs, s1.isAlive q.1 = true := by
    intro q hq
    rw [hslots.isAlive]
    exact halive q hq
  have hfold := foldl_trainPair_lookup icao p qs s1 hne hnodup halive1
  rw [hpairs] at hfold
  rw [hat] at htrain
  rw [htrain]
  refine ⟨?_, hfold⟩
  rw [hjoin, if_pos rfl, hat]

/-- The state after reports of a new event: they are at its sync point, and they have trained each
    other. -/
theorem onReports_trained (env : Env F) (s : State F) {em om : String} {de do' : Df17Airborne}
    {pe po : Geodetic F} (hd : decodeSync env em om = some (de, do'))
    (hp : syncPositions de do' = some (pe, po)) (hnew : s.syncpoints.lookup (em, om) = none)
    (rs : List (SyncReport F)) (hlive : ∀ r ∈ rs, s.live r.rx = true)
    (hdist : (rs.map fun r => r.rx.idx).Nodup) (hlen : rs.length ≤ maxReporters) :
    SameSlots s (onReports env em om s rs) ∧
      (onReports env em om s rs).reportersAt (em, om) =
        rs.map (fun r => s.heardFrom pe po r.rx r.et r.ot) ∧
      Trained s.pairs (onReports env em om s rs).pairs
        (rs.map fun r => s.heardFrom pe po r.rx r.et r.ot) := by
  induction rs using List.reverseRecOn with
  | nil =>
    refine ⟨SameSlots.refl s, ?_, Trained.nil⟩
    unfold reportersAt
    rw [onReports, List.foldl_nil, hnew]
    rfl
  | append_singleton rs r ih =>
    rw [List.map_append, List.nodup_append] at hdist
    rw [List.length_append, List.length_singleton] at hlen
    obtain ⟨hslots, hat, htrained⟩ := ih (fun r hr => hlive r (List.mem_append_left _ hr)) hdist.1
      (by omega)
    have hother : ∀ q ∈ rs.map (fun r => s.heardFrom pe po r.rx r.et r.ot), q.1 ≠ r.rx.idx := by
      intro q hq
      obtain ⟨r', hr', rfl⟩ := List.mem_map.1 hq
      exact hdist.2.2 _ (List.mem_map_of_mem hr') _ (List.mem_singleton_self _)
    have hnodup : ((rs.map fun r => s.heardFrom pe po r.rx r.et r.ot).map Prod.fst).Nodup := by
      rw [List.map_map]
      exact hdist.1
    have hlive' : (onReports env em om s rs).live r.rx = true := by
      rw [hslots.live]
      exact hlive r (List.mem_append_right _ (List.mem_singleton_self r))
    obtain ⟨s1, hslots1, hpairs1, hsp1, hs1⟩ := onSync_eq_trainSync env _ r.now r.et r.ot r.atScaled
      hlive' hd hp
    have hheard : (onReports env em om s rs).heardFrom pe po r.rx r.et r.ot =
        s.heardFrom pe po r.rx r.et r.ot := by
      unfold heardFrom receiver
      rw [hslots.receivers]
    have hat1 : s1.reportersAt (em, om) =
        rs.map (fun r => s.heardFrom pe po r.rx r.et r.ot) := by
      rw [← hat]
      unfold reportersAt
      rw [hsp1]
    have halive : ∀ q ∈ rs.map (fun r => s.heardFrom pe po r.rx r.et r.ot),
        s1.isAlive q.1 = true := by
      intro q hq
      obtain ⟨r', hr', rfl⟩ := List.mem_map.1 hq
      have h := hlive r' (List.mem_append_left _ hr')
      rw [(hslots.trans hslots1).isAlive]
      unfold live at h
      rw [Bool.and_eq_true, Bool.and_eq_true] at h
      exact h.1.2
    have hroom : (rs.map fun r => s.heardFrom pe po r.rx r.et r.ot).length < maxReporters := by
      rw [List.length_map]
      omega
    obtain ⟨hjoin, hboth, hrest⟩ := trainSync_trained s1 r.now de.icao (em, om)
      (s.heardFrom pe po r.rx r.et r.ot) hat1 hroom hother hnodup halive
    rw [hheard] at hs1
    rw [hpairs1] at hboth hrest
    have hstep : onReports env em om s (rs ++ [r]) =
        s1.trainSync r.now r.rx.idx de.icao (em, om) (s.heardFrom pe po r.rx r.et r.ot).2.1
          (s.heardFrom pe po r.rx r.et r.ot).2.2 :=
      (List.foldl_concat _ _ _ _).trans hs1
    refine ⟨?_, ?_, ?_⟩
    · rw [hstep, ← hs1]
      exact hslots.trans (onSync_sameSlots env _ r.now r.rx r.et r.ot em om r.atScaled)
    · rw [hstep, List.map_append, List.map_singleton]
      exact hjoin
    · rw [hstep, List.map_append, List.map_singleton]
      exact htrained.concat hother hboth hrest

omit [F64 F] in
/-- Live receivers are told apart by their slots. -/
theorem idx_injOn_live {s : State F} {r r' : RxRef} (h : s.live r = true) (h' : s.live r' = true)
    (heq : r.idx = r'.idx) : r = r' := by
  unfold live at h h'
  simp only [Bool.and_eq_true, decide_eq_true_eq] at h h'
  obtain ⟨idx, gen⟩ := r
  obtain ⟨idx', gen'⟩ := r'
  simp only at heq h h'
  rw [RxRef.mk.injEq]
  refine ⟨heq, ?_⟩
  rw [← h.2, ← h'.2, heq]

/-- **Training does not depend on who reports first.** Reports of a new event from at most fifteen
    different live receivers lead to the same pairs in every order: each pair of reporters gets, in
    both directions, one push of the even and then one of the odd transmit times, and no other pair
    changes. -/
theorem training_order_free (env : Env F) (s : State F) (em om : String)
    (de do' : Df17Airborne) (pe po : Geodetic F)
    (hd : decodeSync env em om = some (de, do')) (hp : syncPositions de do' = some (pe, po))
    (hnew : s.syncpoints.lookup (em, om) = none) (rs : List (SyncReport F))
    (hlive : ∀ r ∈ rs, s.live r.rx = true) (hdist : (rs.map SyncReport.rx).Nodup)
    (hlen : rs.length ≤ maxReporters) :
    (∀ rs', rs'.Perm rs → (onReports env em om s rs').pairs = (onReports env em om s rs).pairs) ∧
    (∀ p ∈ rs, ∀ q ∈ rs, p.rx ≠ q.rx →
      (onReports env em om s rs).pairs.lookup (p.rx.idx, q.rx.idx) =
        let m := (s.pairs.lookup (p.rx.idx, q.rx.idx)).getD PairModel.default
        let te (r : SyncReport F) := transmitTime (s.receiver r.rx.idx) r.et pe
        let to' (r : SyncReport F) := transmitTime (s.receiver r.rx.idx) r.ot po
        some ((m.push (te p) (te q)).1.push (to' p) (to' q)).1) ∧
    ∀ a b, (∀ p ∈ rs, ∀ q ∈ rs, p.rx ≠ q.rx → a = p.rx.idx → b ≠ q.rx.idx) →
      (onReports env em om s rs).pairs.lookup (a, b) = s.pairs.lookup (a, b) := by
  have hidx : ∀ rs' : List (SyncReport F), rs'.Perm rs →
      (rs'.map fun r => r.rx.idx).Nodup := by
    intro rs' hperm
    have h : (rs.map fun r => r.rx.idx).Nodup := by
      have hmap : (rs.map fun r => r.rx.idx) = (rs.map SyncReport.rx).map RxRef.idx := by
        rw [List.map_map]
        rfl
      rw [hmap]
      refine hdist.map_on fun a ha b hb heq => ?_
      obtain ⟨p, hp, rfl⟩ := List.mem_map.1 ha
      obtain ⟨q, hq, rfl⟩ := List.mem_map.1 hb
      exact idx_injOn_live (hlive p hp) (hlive q hq) heq
    exact (hperm.map fun r => r.rx.idx).nodup_iff.2 h
  have htrained : ∀ rs' : List (SyncReport F), rs'.Perm rs →
      Trained s.pairs (onReports env em om s rs').pairs
        (rs.map fun r => s.heardFrom pe po r.rx r.et r.ot) := by
    intro rs' hperm
    have h := (onReports_trained env s hd hp hnew rs' (fun r hr => hlive r (hperm.mem_iff.1 hr))
      (hidx rs' hperm) (by rw [hperm.length_eq]; exact hlen)).2.2
    exact h.of_mem_iff fun p => (hperm.map _).mem_iff.symm
  have hrs := htrained rs (List.Perm.refl rs)
  refine ⟨fun rs' hperm => hrs.unique (htrained rs' hperm), ?_, ?_⟩
  · intro p hp q hq hne
    exact hrs.both _ (List.mem_map_of_mem hp) _ (List.mem_map_of_mem hq) fun heq =>
      hne (idx_injOn_live (hlive p hp) (hlive q hq) heq)
  · intro a b hab
    refine hrs.rest _ fun u hu v hv hne heq => ?_
    obtain ⟨p, hp, rfl⟩ := List.mem_map.1 hu
    obtain ⟨q, hq, rfl⟩ := List.mem_map.1 hv
    obtain ⟨h1, h2⟩ := Prod.mk.inj heq
    exact hab p hp q hq (fun h => hne (congrArg RxRef.idx h)) h1 h2

end State

/-! ## Three reports -/

namespace Sample

/-- Slot `rx` reports a pair as heard at second `t` of its clock. -/
def syncReport (rx t : ℕ) : SyncReport ℚ :=
  { now := seconds 10, rx := ⟨rx, 0⟩, et := (12000000 * t : ℕ), ot := (12000000 * t : ℕ)
    atScaled := 10 }

def threeFeeders : State ℚ :=
  Shard.run env (Shard.boot config) [arrives 1 "Zero" none, arrives 1 "One" none,
    arrives 1 "Two" none]

theorem exists_positions : ∃ (de do' : Df17Airborne) (pe po : Geodetic ℚ),
    State.decodeSync env Sample.evenFrame Sample.oddFrame = some (de, do') ∧
      State.syncPositions de do' = some (pe, po) := by
  have h : ((State.decodeSync env Sample.evenFrame Sample.oddFrame).bind fun d =>
      (State.syncPositions d.1 d.2 : Option (Geodetic ℚ × Geodetic ℚ))).isSome = true := by
    decide +kernel
  obtain ⟨⟨pe, po⟩, h1⟩ := Option.isSome_iff_exists.1 h
  obtain ⟨⟨de, do'⟩, hd, hp⟩ := Option.bind_eq_some_iff.1 h1
  exact ⟨de, do', pe, po, hd, hp⟩

end Sample

/-- Three reports of one event, and the same three backwards. -/
theorem State.training_order_free_three :
    let rs := [Sample.syncReport 0 1, Sample.syncReport 1 2, Sample.syncReport 2 3]
    (onReports Sample.env Sample.evenFrame Sample.oddFrame Sample.threeFeeders rs.reverse).pairs =
      (onReports Sample.env Sample.evenFrame Sample.oddFrame Sample.threeFeeders rs).pairs := by
  intro rs
  obtain ⟨de, do', pe, po, hd, hp⟩ := Sample.exists_positions
  exact (training_order_free Sample.env Sample.threeFeeders Sample.evenFrame Sample.oddFrame de do' pe po hd hp
    (by decide +kernel) rs (by decide +kernel) (by decide +kernel) (by decide)).1 rs.reverse
    (List.reverse_perm rs)

end Mlatd
