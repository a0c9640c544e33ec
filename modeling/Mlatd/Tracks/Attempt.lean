/-
  What one call of `solve_cluster` comes to (state.rs).

  `attempted` is the attempt a cluster leads to, with its solution: none when it is too small, of
  an unknown altitude or within the backoff. `solveCluster_cases` says all that the call does: it
  notes the aircraft in the tracks and, on an attempt, stamps the backoff and concludes. From it
  come the lemmas of this module, one for each map that remembers an aircraft.
-/
import Mlatd.Shard.Turns

namespace Mlatd

variable {F : Type} [F64 F]

namespace State

/-! ## The attempt of a cluster -/

/-- The aircraft has a track, if only a default one. -/
def entered (s : State F) (icao : Icao) : State F :=
  { s with tracks := s.tracks.insert icao ((s.tracks.lookup icao).getD Track.default) }

/-- The attempt on a stamped cluster, whether or not it comes too soon. -/
def attemptAt (s : State F) (now : Instant) (g : Group F) (stamp : F) (sel : Selected F) :
    Option (Attempt F) :=
  (s.altsFt.lookup g.icao).map fun altFt =>
    { icao := g.icao, isDf17 := g.df17, members := g.members, used := sel.used
      benched := sel.benched, stamp := stamp, nowScaled := s.scaledNow now, altFt := altFt
      altM := F64.ofInt altFt * 0.3048, track := (s.tracks.lookup g.icao).getD Track.default
      gate := s.gateFor g.icao sel.used.length (F64.ofInt altFt * 0.3048) (s.scaledNow now) }

/-- What the solver makes of an attempt. -/
def solution (env : Env F) (s : State F) (a : Attempt F) : Option (Solution F) :=
  solveRobust env.solve (a.used.map Used.obs) a.altM (s.startPoint a)

/-- The attempt that a cluster leads to, and its solution. -/
def attempted (env : Env F) (s : State F) (now : Instant) (g : Group F) (localRef : ℕ)
    (cluster : List (Arrival F)) : Option (Attempt F × Option (Solution F)) :=
  let sel := s.selectObs cluster
  if sel.used.length < 4 then none
  else
    let stamped := s.stampCluster localRef sel.used
    ((stamped.1.attemptAt now g stamped.2 { sel with used := capUsed sel.used }).filter
      fun a => !a.tooSoon).map fun a => (a, s.solution env a)

theorem attempt_eq (env : Env F) (s : State F) (now : Instant) (g : Group F) (stamp : F)
    (sel : Selected F) : s.attempt env now g stamp sel =
      match (s.attemptAt now g stamp sel).filter fun a => !a.tooSoon with
      | none => (s.entered g.icao, [])
      | some a => ((s.entered g.icao).noteAttempt a).conclude a (s.solution env a) := by
  have h : s.attempt env now g stamp sel =
      match s.attemptAt now g stamp sel with
      | none => (s.entered g.icao, [])
      | some a => if a.tooSoon then (s.entered g.icao, [])
        else ((s.entered g.icao).noteAttempt a).conclude a (s.solution env a) := by
    unfold attempt attemptAt
    simp only
    cases s.altsFt.lookup g.icao with
    | none => rfl
    | some altFt => rfl
  rw [h]
  cases s.attemptAt now g stamp sel with
  | none => rfl
  | some a => cases ht : a.tooSoon <;> simp [Option.filter_some, ht]

/-- What an attempt carries. -/
structure Made (s : State F) (now : Instant) (g : Group F) (cluster : List (Arrival F))
    (a : Attempt F) : Prop where
  icao : a.icao = g.icao
  isDf17 : a.isDf17 = g.df17
  members : a.members = g.members
  nowScaled : a.nowScaled = s.scaledNow now
  track : a.track = (s.tracks.lookup g.icao).getD Track.default
  used : a.used = capUsed (s.selectObs cluster).used
  enough : 4 ≤ (s.selectObs cluster).used.length
  inTime : a.tooSoon = false

theorem made_of_attempted {env : Env F} {s : State F} {now : Instant} {g : Group F} {localRef : ℕ}
    {cluster : List (Arrival F)} {a : Attempt F} {sol : Option (Solution F)}
    (h : s.attempted env now g localRef cluster = some (a, sol)) :
    Made s now g cluster a ∧ a.stamp = (s.stampCluster localRef (s.selectObs cluster).used).2 ∧
      sol = s.solution env a := by
  unfold attempted at h
  simp only at h
  split at h
  · cases h
  · next hlen =>
    obtain ⟨a', ha, heq⟩ := Option.map_eq_some_iff.1 h
    cases heq
    obtain ⟨ha, htime⟩ := Option.filter_eq_some_iff.1 ha
    unfold attemptAt at ha
    obtain ⟨altFt, -, rfl⟩ := Option.map_eq_some_iff.1 ha
    refine ⟨⟨rfl, rfl, rfl, rfl, rfl, rfl, by omega, ?_⟩, rfl, rfl⟩
    simpa using htime

/-- A call that leads to no attempt. -/
theorem solveCluster_of_none {env : Env F} {s : State F} {now : Instant} {g : Group F}
    {localRef : ℕ} {cluster : List (Arrival F)}
    (h : s.attempted env now g localRef cluster = none) :
    s.solveCluster env now g localRef cluster =
      if (s.selectObs cluster).used.length < 4 then (s, [])
      else ((s.stampCluster localRef (s.selectObs cluster).used).1.entered g.icao, []) := by
  unfold attempted at h
  unfold solveCluster
  simp only at h ⊢
  split at h
  · next hlen => rw [if_pos hlen, if_pos hlen]
  · next hlen => rw [if_neg hlen, if_neg hlen, attempt_eq, Option.map_eq_none_iff.1 h]

/-- A call that leads to an attempt. -/
theorem solveCluster_of_some {env : Env F} {s : State F} {now : Instant} {g : Group F}
    {localRef : ℕ} {cluster : List (Arrival F)} {a : Attempt F} {sol : Option (Solution F)}
    (h : s.attempted env now g localRef cluster = some (a, sol)) :
    s.solveCluster env now g localRef cluster =
      (((s.stampCluster localRef (s.selectObs cluster).used).1.entered g.icao).noteAttempt
        a).conclude a sol := by
  unfold attempted at h
  unfold solveCluster
  simp only at h ⊢
  split at h
  · cases h
  · next hlen =>
    obtain ⟨a', ha, heq⟩ := Option.map_eq_some_iff.1 h
    cases heq
    rw [if_neg hlen, attempt_eq, ha]
    rfl

/-- All that a call does. -/
theorem solveCluster_cases (env : Env F) (s : State F) (now : Instant) (g : Group F)
    (localRef : ℕ) (cluster : List (Arrival F)) :
    (s.attempted env now g localRef cluster = none ∧
      ((s.selectObs cluster).used.length < 4 ∧
          s.solveCluster env now g localRef cluster = (s, []) ∨
        4 ≤ (s.selectObs cluster).used.length ∧ ∃ offsets, s.solveCluster env now g localRef cluster =
          (State.entered { s with stampOffset := offsets } g.icao, []))) ∨
    ∃ a sol offsets, s.attempted env now g localRef cluster = some (a, sol) ∧
      s.solveCluster env now g localRef cluster =
        ((State.entered { s with stampOffset := offsets } g.icao).noteAttempt a).conclude a sol := by
  cases ha : s.attempted env now g localRef cluster with
  | none =>
    rw [solveCluster_of_none ha]
    split
    · next hlen => exact Or.inl ⟨rfl, Or.inl ⟨hlen, rfl⟩⟩
    · next hlen => exact Or.inl ⟨rfl, Or.inr ⟨not_lt.1 hlen, _, rfl⟩⟩
  | some p =>
    obtain ⟨a, sol⟩ := p
    rw [solveCluster_of_some ha]
    exact Or.inr ⟨a, sol, _, rfl, rfl⟩

/-! ## Which maps a conclusion writes -/

/-- Only the bias of receivers and the statistics change. -/
structure SameMaps (s s' : State F) : Prop where
  tracks : s'.tracks = s.tracks
  acLog : s'.acLog = s.acLog
  filters : s'.filters = s.filters
  altsFt : s'.altsFt = s.altsFt
  adsbPos : s'.adsbPos = s.adsbPos
  clock : ∀ now, s'.scaledNow now = s.scaledNow now

namespace SameMaps

theorem refl (s : State F) : SameMaps s s := ⟨rfl, rfl, rfl, rfl, rfl, fun _ => rfl⟩

theorem trans {s s' s'' : State F} (h : SameMaps s s') (h' : SameMaps s' s'') : SameMaps s s'' :=
  ⟨h'.tracks.trans h.tracks, h'.acLog.trans h.acLog, h'.filters.trans h.filters,
    h'.altsFt.trans h.altsFt, h'.adsbPos.trans h.adsbPos,
    fun now => (h'.clock now).trans (h.clock now)⟩

theorem foldl {α : Type} {f : State F → α → State F} (hf : ∀ s a, SameMaps s (f s a))
    (s : State F) (as : List α) : SameMaps s (as.foldl f s) := by
  induction as generalizing s with
  | nil => exact refl s
  | cons a as ih => exact (hf s a).trans (ih (f s a))

end SameMaps

theorem trainBenched_sameMaps (s : State F) (tx : Ecef F) (tTx : F) (b : ℕ × F) :
    SameMaps s (s.trainBenched tx tTx b) := { SameMaps.refl s with }

theorem trainAllBenched_sameMaps (s : State F) (a : Attempt F) (sol : Solution F) :
    SameMaps s (s.trainAllBenched a sol) := by
  unfold trainAllBenched
  split
  · exact SameMaps.foldl (fun s b => trainBenched_sameMaps s _ _ b) s _
  · exact SameMaps.refl s

theorem learnOne_sameMaps (withMad : Bool) (s : State F) (o : ℕ × F) :
    SameMaps s (learnOne withMad s o) := { SameMaps.refl s with }

theorem learnBias_sameMaps (s : State F) (a : Attempt F) (sol : Solution F) (withMad : Bool) :
    SameMaps s (s.learnBias a sol withMad) := by
  unfold learnBias
  split
  · exact SameMaps.foldl (learnOne_sameMaps withMad) s _
  · exact SameMaps.refl s

theorem selfTruth_sameMaps (s : State F) (a : Attempt F) (sol : Solution F) :
    SameMaps s (s.selfTruth a sol).1 := by
  unfold selfTruth
  split
  · exact SameMaps.refl s
  · simp only
    split
    · split <;> exact learnBias_sameMaps s a sol false
    · exact learnBias_sameMaps s a sol false

/-- What a conclusion does, case by case: nothing to the maps, a refusal for speed noted, or a fix
    published. -/
theorem conclude_cases (s : State F) (a : Attempt F) (sol : Option (Solution F)) :
    ((∀ r, sol = some r → judge a r ≠ some .tooFast) ∧
      (∀ r, sol = some r → judge a r = none → a.isDf17 = true) ∧
      SameMaps s (s.conclude a sol).1 ∧ ∀ row, .fix row ∉ (s.conclude a sol).2) ∨
    (∃ r, sol = some r ∧ judge a r = some .tooFast ∧
      s.conclude a sol = ((s.noteSpeedReject a.icao).reject, [])) ∨
    ∃ r t, sol = some r ∧ judge a r = none ∧ a.isDf17 = false ∧ SameMaps s t ∧
      s.conclude a sol = t.publish a r := by
  cases sol with
  | none => exact Or.inl ⟨nofun, nofun, { SameMaps.refl s with }, by simp [conclude]⟩
  | some r =>
    unfold conclude
    simp only
    cases hj : judge a r with
    | some refusal =>
      cases refusal with
      | tooFast => exact Or.inr (Or.inl ⟨r, rfl, hj, rfl⟩)
      | uncertain | throttled | offTrack =>
        refine Or.inl ⟨?_, ?_, { SameMaps.refl s with }, by simp⟩
        · intro r' h' hr
          cases h'
          rw [hj] at hr
          cases hr
        · intro r' h' hr
          cases h'
          rw [hj] at hr
          cases hr
    | none =>
      cases hd : a.isDf17 with
      | false =>
        exact Or.inr (Or.inr ⟨r, _, rfl, hj, rfl, trainAllBenched_sameMaps s a r, rfl⟩)
      | true =>
        refine Or.inl ⟨?_, fun _ _ _ => rfl, ?_, ?_⟩
        · intro r' h' hr
          cases h'
          rw [hj] at hr
          cases hr
        · exact (trainAllBenched_sameMaps s a r).trans (selfTruth_sameMaps _ a r)
        · intro row
          simp only [if_true]
          unfold selfTruth
          simp only
          split
          · simp
          · split
            · split <;> simp
            · simp

/-! ## What a call leaves alone -/

/-- The published fixes of an aircraft, oldest first. -/
def fixesOf (s : State F) (k : Icao) : List (Fix F) :=
  ((s.acLog.lookup k).map AcLog.fixes).getD []

/-- Only what is remembered of one aircraft changes, and no log goes. -/
structure Concerns (icao : Icao) (s s' : State F) : Prop where
  tracks : ∀ k, k ≠ icao → s'.tracks.lookup k = s.tracks.lookup k
  filters : ∀ k, k ≠ icao → s'.filters.lookup k = s.filters.lookup k
  acLog : ∀ k, k ≠ icao → s'.acLog.lookup k = s.acLog.lookup k
  logs : ∀ k, k ∈ s.acLog → k ∈ s'.acLog
  altsFt : s'.altsFt = s.altsFt
  adsbPos : s'.adsbPos = s.adsbPos
  clock : ∀ now, s'.scaledNow now = s.scaledNow now

section
variable {icao : Icao}

theorem SameMaps.concerns {s s' : State F} (h : SameMaps s s') : Concerns icao s s' where
  tracks k _ := by rw [h.tracks]
  filters k _ := by rw [h.filters]
  acLog k _ := by rw [h.acLog]
  logs k hk := h.acLog ▸ hk
  altsFt := h.altsFt
  adsbPos := h.adsbPos
  clock := h.clock

theorem Concerns.refl (s : State F) : Concerns icao s s := (SameMaps.refl s).concerns

theorem Concerns.trans {s s' s'' : State F} (h : Concerns icao s s') (h' : Concerns icao s' s'') :
    Concerns icao s s'' where
  tracks k hk := (h'.tracks k hk).trans (h.tracks k hk)
  filters k hk := (h'.filters k hk).trans (h.filters k hk)
  acLog k hk := (h'.acLog k hk).trans (h.acLog k hk)
  logs k hk := h'.logs k (h.logs k hk)
  altsFt := h'.altsFt.trans h.altsFt
  adsbPos := h'.adsbPos.trans h.adsbPos
  clock now := (h'.clock now).trans (h.clock now)

theorem entered_concerns (s : State F) (offsets : HashMap ℕ F) :
    Concerns icao s (State.entered { s with stampOffset := offsets } icao) :=
  { Concerns.refl s with tracks := fun _ hk => Finmap.lookup_insert_of_ne _ hk }

theorem noteAttempt_concerns (s : State F) (a : Attempt F) :
    Concerns a.icao s (s.noteAttempt a) := by
  refine { Concerns.refl s with tracks := fun k hk => ?_ }
  unfold noteAttempt
  simp only
  rw [Finmap.lookup_modify, if_neg hk]

theorem noteSpeedReject_concerns (s : State F) (icao : Icao) :
    Concerns icao s (s.noteSpeedReject icao) := by
  unfold noteSpeedReject
  simp only
  split
  · refine { Concerns.refl s with
      tracks := fun k hk => ?_, acLog := fun k hk => ?_, logs := fun k hk => ?_ }
    · simp only [Finmap.lookup_modify, if_neg hk]
    · simp only [Finmap.lookup_modify, if_neg hk]
    · exact Finmap.mem_modify.2 hk
  · refine { Concerns.refl s with tracks := fun k hk => ?_ }
    simp only [Finmap.lookup_modify, if_neg hk]

theorem noteFix_concerns (s : State F) (a : Attempt F) (sol : Solution F) :
    Concerns a.icao s (s.noteFix a sol) := by
  refine { Concerns.refl s with
    tracks := fun k hk => ?_, acLog := fun k hk => ?_, logs := fun k hk => ?_ }
  · simp only [noteFix, Finmap.lookup_modify, if_neg hk]
  · simp only [noteFix, Finmap.lookup_upsert, if_neg hk]
  · exact Finmap.mem_upsert.2 (Or.inr hk)

theorem smooth_concerns (s : State F) (a : Attempt F) (sol : Solution F) :
    Concerns a.icao s (s.smooth a sol).1 := by
  unfold smooth
  split
  · exact Concerns.refl s
  · split
    · exact { Concerns.refl s with filters := fun k hk => Finmap.lookup_insert_of_ne _ hk }
    · exact { Concerns.refl s with filters := fun k hk => Finmap.lookup_insert_of_ne _ hk }

/-- A publication notes the fix, on a state that has learnt from it. -/
theorem publish_eq (s : State F) (a : Attempt F) (sol : Solution F) :
    ∃ t, SameMaps s t ∧ (s.publish a sol).1 = ((t.noteFix a sol).smooth a sol).1 := by
  refine ⟨_, ?_, rfl⟩
  have h : SameMaps s { s with statsSolved := s.statsSolved + 1 } := { SameMaps.refl s with }
  exact h.trans (learnBias_sameMaps _ a sol true)

theorem publish_concerns (s : State F) (a : Attempt F) (sol : Solution F) :
    Concerns a.icao s (s.publish a sol).1 := by
  obtain ⟨t, ht, h⟩ := publish_eq s a sol
  rw [h]
  exact (ht.concerns.trans (noteFix_concerns t a sol)).trans (smooth_concerns _ a sol)

theorem conclude_concerns (s : State F) (a : Attempt F) (sol : Option (Solution F)) :
    Concerns a.icao s (s.conclude a sol).1 := by
  rcases conclude_cases s a sol with ⟨-, -, h, -⟩ | ⟨r, -, -, h⟩ | ⟨r, t, -, -, -, ht, h⟩
  · exact h.concerns
  · rw [h]
    have h1 : SameMaps (s.noteSpeedReject a.icao) (s.noteSpeedReject a.icao).reject :=
      { SameMaps.refl _ with }
    exact (noteSpeedReject_concerns s a.icao).trans h1.concerns
  · rw [h]
    exact ht.concerns.trans (publish_concerns t a r)

end

/-- A call concerns the aircraft of its group. -/
theorem solveCluster_concerns (env : Env F) (s : State F) (now : Instant) (g : Group F)
    (localRef : ℕ) (cluster : List (Arrival F)) :
    Concerns g.icao s (s.solveCluster env now g localRef cluster).1 := by
  rcases solveCluster_cases env s now g localRef cluster with
    ⟨-, ⟨-, h⟩ | ⟨-, offsets, h⟩⟩ | ⟨a, sol, offsets, ha, h⟩
  · rw [h]
    exact (SameMaps.refl s).concerns
  · rw [h]
    exact entered_concerns s offsets
  · rw [h]
    rw [← (made_of_attempted ha).1.icao]
    exact ((entered_concerns s offsets).trans (noteAttempt_concerns _ a)).trans
      (conclude_concerns _ a sol)

end State

end Mlatd
