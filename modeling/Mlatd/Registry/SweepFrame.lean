/-
  What solving, the sweep and the exports leave alone.

  `Solves ref s s'`: from `s` to `s'` only the maps of aircraft, the learnt biases and the offset
  of slot `ref` may differ. The solve of a group whose reference is `ref` has it, whatever the
  inner solver returns. The sweep expires and solves, so it mentions no slot that was not
  mentioned: the reference of a group is one of its members.
-/
import Mlatd.Registry.Frame

namespace Mlatd

variable {F : Type} [F64 F]

namespace State

/-! ## Solving -/

/-- Only aircraft, biases and the offset of `ref` differ. -/
structure Solves (ref : ℕ) (s s' : State F) : Prop extends SameSlots s s' where
  pairs : s'.pairs = s.pairs
  syncpoints : s'.syncpoints = s.syncpoints
  groups : s'.groups = s.groups
  stampOffset : ∀ i, i ≠ ref → s'.stampOffset.lookup i = s.stampOffset.lookup i
  heardMlat : ∀ k, s'.heardMlat k = s.heardMlat k
  heardSync : ∀ k, s'.heardSync k = s.heardSync k

namespace Solves

variable {ref : ℕ}

omit [F64 F] in
theorem refl (s : State F) : Solves ref s s :=
  ⟨SameSlots.refl s, rfl, rfl, rfl, fun _ _ => rfl, fun _ => rfl, fun _ => rfl⟩

omit [F64 F] in
theorem trans {s s' s'' : State F} (h : Solves ref s s') (h' : Solves ref s' s'') :
    Solves ref s s'' :=
  ⟨h.toSameSlots.trans h'.toSameSlots, h'.pairs.trans h.pairs, h'.syncpoints.trans h.syncpoints,
    h'.groups.trans h.groups, fun i hi => (h'.stampOffset i hi).trans (h.stampOffset i hi),
    fun k => (h'.heardMlat k).trans (h.heardMlat k),
    fun k => (h'.heardSync k).trans (h.heardSync k)⟩

omit [F64 F] in
theorem foldl {α : Type} {f : State F → α → State F} (hf : ∀ s a, Solves ref s (f s a))
    (s : State F) (as : List α) : Solves ref s (as.foldl f s) := by
  induction as generalizing s with
  | nil => exact refl s
  | cons a as ih => exact (hf s a).trans (ih (f s a))

omit [F64 F] in
theorem adds {P : ℕ → Prop} {s s' : State F} (h : Solves ref s s') (hP : P ref) :
    Adds P s s' := by
  refine
    { pairs := by rw [h.pairs]; exact fun _ p hp => Or.inl ⟨p, hp⟩
      syncpoints := by rw [h.syncpoints]; exact fun _ sp hk _ hr => Or.inl ⟨sp, hk, hr⟩
      groups := by rw [h.groups]; exact fun _ g hk _ he => Or.inl ⟨g, hk, he⟩
      heardMlat := fun k _ t ht => Or.inl ⟨t, h.heardMlat k ▸ ht⟩
      heardSync := fun k _ t ht => Or.inl ⟨t, h.heardSync k ▸ ht⟩
      stampOffset := ?_ }
  intro i o ho
  by_cases hi : i = ref
  · exact Or.inr (hi ▸ hP)
  · exact Or.inl ⟨o, h.stampOffset i hi ▸ ho⟩

end Solves

section
variable (ref : ℕ) (s : State F) (a : Attempt F)

theorem stampCluster_solves (used : List (Used F)) : Solves ref s (s.stampCluster ref used).1 :=
  ⟨⟨rfl, rfl, rfl, rfl, rfl, rfl, rfl, rfl⟩, rfl, rfl, rfl,
    fun _ hi => Finmap.lookup_insert_of_ne _ hi, fun _ => rfl, fun _ => rfl⟩

omit [F64 F] in
theorem noteAttempt_solves : Solves ref s (s.noteAttempt a) :=
  ⟨⟨rfl, rfl, rfl, rfl, rfl, rfl, rfl, rfl⟩, rfl, rfl, rfl, fun _ _ => rfl, fun _ => rfl,
    fun _ => rfl⟩

omit [F64 F] in
theorem reject_solves : Solves ref s s.reject :=
  ⟨⟨rfl, rfl, rfl, rfl, rfl, rfl, rfl, rfl⟩, rfl, rfl, rfl, fun _ _ => rfl, fun _ => rfl,
    fun _ => rfl⟩

/-- Clearing the fixes of a log keeps its interest maps. -/
theorem noteSpeedReject_solves (icao : Icao) : Solves ref s (s.noteSpeedReject icao) := by
  unfold noteSpeedReject
  dsimp only
  split
  · have hk : ∀ k, ((s.acLog.modify icao fun l => { l with fixes := [] }).lookup k).map
          AcLog.rxMlat = (s.acLog.lookup k).map AcLog.rxMlat ∧
        ((s.acLog.modify icao fun l => { l with fixes := [] }).lookup k).map
          AcLog.rxSync = (s.acLog.lookup k).map AcLog.rxSync := by
      intro k
      rw [Finmap.lookup_modify]
      split
      · next h =>
        rw [h]
        cases s.acLog.lookup icao with
        | none => exact ⟨rfl, rfl⟩
        | some l => exact ⟨rfl, rfl⟩
      · exact ⟨rfl, rfl⟩
    exact ⟨⟨rfl, rfl, rfl, rfl, rfl, rfl, rfl, rfl⟩, rfl, rfl, rfl, fun _ _ => rfl,
      fun k => congrArg (Option.getD · ∅) (hk k).1, fun k => congrArg (Option.getD · ∅) (hk k).2⟩
  · exact ⟨⟨rfl, rfl, rfl, rfl, rfl, rfl, rfl, rfl⟩, rfl, rfl, rfl, fun _ _ => rfl, fun _ => rfl,
      fun _ => rfl⟩

theorem trainBenched_solves (tx : Ecef F) (tTx : F) (b : ℕ × F) :
    Solves ref s (s.trainBenched tx tTx b) :=
  ⟨⟨rfl, rfl, rfl, rfl, rfl, List.length_modify _ _ _, rfl, rfl⟩, rfl, rfl, rfl, fun _ _ => rfl,
    fun _ => rfl, fun _ => rfl⟩

theorem trainAllBenched_solves (sol : Solution F) : Solves ref s (s.trainAllBenched a sol) := by
  unfold trainAllBenched
  split
  · exact Solves.foldl (fun s b => trainBenched_solves ref s _ _ b) s _
  · exact Solves.refl s

theorem learnOne_solves (withMad : Bool) (o : ℕ × F) : Solves ref s (learnOne withMad s o) :=
  ⟨⟨rfl, rfl, rfl, rfl, rfl, List.length_modify _ _ _, rfl, rfl⟩, rfl, rfl, rfl, fun _ _ => rfl,
    fun _ => rfl, fun _ => rfl⟩

theorem learnBias_solves (sol : Solution F) (withMad : Bool) :
    Solves ref s (s.learnBias a sol withMad) := by
  unfold learnBias
  split
  · exact Solves.foldl (fun s o => learnOne_solves ref s withMad o) s _
  · exact Solves.refl s

theorem selfTruth_solves (sol : Solution F) : Solves ref s (s.selfTruth a sol).1 := by
  unfold selfTruth
  split
  · exact Solves.refl s
  · dsimp only
    split
    · split
      · exact learnBias_solves ref s a sol false
      · exact learnBias_solves ref s a sol false
    · exact learnBias_solves ref s a sol false

theorem noteFix_acLog (sol : Solution F) :
    (s.noteFix a sol).acLog = s.acLog.upsert a.icao AcLog.default fun l =>
      { l with
        results := l.results + 1
        fixes := trimFixes a.nowScaled
          (l.fixes ++ [{ t := a.nowScaled, pos := sol.pos, errM := fixErrM sol }]) } := rfl

theorem noteFix_solves (sol : Solution F) : Solves ref s (s.noteFix a sol) := by
  have hh := heard_upsert_eq (noteFix_acLog s a sol) (fun _ => ⟨rfl, rfl⟩)
  exact ⟨⟨rfl, rfl, rfl, rfl, rfl, rfl, rfl, rfl⟩, rfl, rfl, rfl, fun _ _ => rfl,
    fun k => (hh k).1, fun k => (hh k).2⟩

theorem smooth_solves (sol : Solution F) : Solves ref s (s.smooth a sol).1 := by
  unfold smooth
  split
  · exact Solves.refl s
  · split
    · exact ⟨⟨rfl, rfl, rfl, rfl, rfl, rfl, rfl, rfl⟩, rfl, rfl, rfl, fun _ _ => rfl, fun _ => rfl,
        fun _ => rfl⟩
    · exact ⟨⟨rfl, rfl, rfl, rfl, rfl, rfl, rfl, rfl⟩, rfl, rfl, rfl, fun _ _ => rfl, fun _ => rfl,
        fun _ => rfl⟩

theorem publish_solves (sol : Solution F) : Solves ref s (s.publish a sol).1 := by
  have h0 : Solves ref s { s with statsSolved := s.statsSolved + 1 } :=
    ⟨⟨rfl, rfl, rfl, rfl, rfl, rfl, rfl, rfl⟩, rfl, rfl, rfl, fun _ _ => rfl, fun _ => rfl,
      fun _ => rfl⟩
  exact ((h0.trans (learnBias_solves ref _ a sol true)).trans (noteFix_solves ref _ a sol)).trans
    (smooth_solves ref _ a sol)

theorem conclude_solves (sol : Option (Solution F)) : Solves ref s (s.conclude a sol).1 := by
  cases sol with
  | none => exact reject_solves ref s
  | some sol =>
    unfold conclude
    dsimp only
    split
    · exact (noteSpeedReject_solves ref s a.icao).trans (reject_solves ref _)
    · exact reject_solves ref s
    · split
      · exact (trainAllBenched_solves ref s a sol).trans (selfTruth_solves ref _ a sol)
      · exact (trainAllBenched_solves ref s a sol).trans (publish_solves ref _ a sol)

theorem attempt_solves (env : Env F) (now : Instant) (g : Group F) (stamp : F)
    (sel : Selected F) : Solves ref s (s.attempt env now g stamp sel).1 := by
  have h0 : ∀ ts, Solves ref s { s with tracks := ts } := fun ts =>
    ⟨⟨rfl, rfl, rfl, rfl, rfl, rfl, rfl, rfl⟩, rfl, rfl, rfl, fun _ _ => rfl, fun _ => rfl,
      fun _ => rfl⟩
  unfold attempt
  dsimp only
  split
  · exact h0 _
  · split
    · exact h0 _
    · exact ((h0 _).trans (noteAttempt_solves ref _ _)).trans (conclude_solves ref _ _ _)

theorem solveCluster_solves (env : Env F) (now : Instant) (g : Group F)
    (cluster : List (Arrival F)) : Solves ref s (s.solveCluster env now g ref cluster).1 := by
  unfold solveCluster
  dsimp only
  split
  · exact Solves.refl s
  · exact (stampCluster_solves ref s _).trans (attempt_solves ref _ env now g _ _)

theorem solveClusters_solves (env : Env F) (clk : ℕ → Instant) (g : Group F) (k : ℕ)
    (cs : List (List (Arrival F))) : Solves ref s (solveClusters env clk g ref s k cs).1 := by
  induction cs generalizing s k with
  | nil => exact Solves.refl s
  | cons c cs ih => exact (solveCluster_solves ref s env (clk k) g c).trans (ih _ _)

end

theorem solveGroup_solves (env : Env F) (s : State F) (clk : ℕ → Instant) (g : Group F) :
    Solves (s.electRef g.members) s (s.solveGroup env clk g).1 := by
  unfold solveGroup
  dsimp only
  split
  · exact Solves.refl s
  · split
    · exact Solves.refl s
    · exact solveClusters_solves _ s env clk g _ _

/-! ## The reference is a member -/

/-- The fold that collects members: one is in the list iff it was, or an entry is its. -/
theorem mem_foldl_members (es : List (ℕ × F × F)) (ms : List ℕ) (i : ℕ) :
    i ∈ es.foldl (fun ms e => if ms.contains e.1 then ms else ms ++ [e.1]) ms ↔
      i ∈ ms ∨ ∃ e ∈ es, e.1 = i := by
  induction es generalizing ms with
  | nil => simp
  | cons e es ih =>
    rw [List.foldl_cons, ih]
    by_cases h : ms.contains e.1 = true
    · rw [if_pos h]
      have h' : e.1 ∈ ms := by simpa using h
      constructor
      · rintro (h1 | ⟨x, hx, hi⟩)
        · exact Or.inl h1
        · exact Or.inr ⟨x, List.mem_cons_of_mem _ hx, hi⟩
      · rintro (h1 | ⟨x, hx, hi⟩)
        · exact Or.inl h1
        · rcases List.mem_cons.1 hx with rfl | h2
          · exact Or.inl (hi ▸ h')
          · exact Or.inr ⟨x, h2, hi⟩
    · rw [if_neg h]
      constructor
      · rintro (h1 | ⟨x, hx, hi⟩)
        · rcases List.mem_append.1 h1 with h2 | h2
          · exact Or.inl h2
          · exact Or.inr ⟨e, List.mem_cons_self, (List.mem_singleton.1 h2).symm⟩
        · exact Or.inr ⟨x, List.mem_cons_of_mem _ hx, hi⟩
      · rintro (h1 | ⟨x, hx, hi⟩)
        · exact Or.inl (List.mem_append_left _ h1)
        · rcases List.mem_cons.1 hx with rfl | h2
          · exact Or.inl (List.mem_append_right _ (List.mem_singleton.2 hi.symm))
          · exact Or.inr ⟨x, h2, hi⟩

theorem mem_members {g : Group F} {i : ℕ} : i ∈ g.members ↔ ∃ e ∈ g.entries, e.1 = i := by
  unfold Group.members
  rw [mem_foldl_members]
  simp

theorem electRef_mem (s : State F) {ms : List ℕ} (h : ms ≠ []) : s.electRef ms ∈ ms := by
  unfold electRef
  cases hm : ms.reverse.argmax (s.refScore ms) with
  | none =>
    rw [List.argmax_eq_none, List.reverse_eq_nil_iff] at hm
    exact absurd hm h
  | some m =>
    have h1 := List.argmax_mem hm
    rw [Option.getD_some]
    exact List.mem_reverse.1 h1

/-! ## The sweep -/

theorem expireAt_sameSlots (s : State F) (now : F) : SameSlots s (s.expireAt now) :=
  ⟨rfl, rfl, rfl, rfl, rfl, rfl, rfl, List.length_mapIdx⟩

/-- What expiry leaves of the interest in an aircraft: nothing, or what is fresh of it. -/
theorem expireAt_heard (s : State F) (now : F) (k : Icao) (i : ℕ) (t : F) :
    (((s.expireAt now).heardMlat k).lookup i = some t → (s.heardMlat k).lookup i = some t) ∧
      (((s.expireAt now).heardSync k).lookup i = some t → (s.heardSync k).lookup i = some t) := by
  unfold State.heardMlat State.heardSync expireAt
  simp only [Finmap.lookup_mapVals, Finmap.lookup_retain]
  cases h : s.acLog.lookup k with
  | none => exact ⟨id, id⟩
  | some a =>
    rw [Option.filter_some]
    split
    · simp only [Option.map_some, Option.getD_some, Finmap.lookup_retain]
      exact ⟨fun h => (Option.filter_eq_some_iff.1 h).1, fun h => (Option.filter_eq_some_iff.1 h).1⟩
    · simp

theorem expireAt_adds {P : ℕ → Prop} (s : State F) (now : F) :
    Adds P s (s.expireAt now) :=
  { Adds.refl s with
    heardMlat := fun k i t h => Or.inl ⟨t, (expireAt_heard s now k i t).1 h⟩
    heardSync := fun k i t h => Or.inl ⟨t, (expireAt_heard s now k i t).2 h⟩ }

theorem expireIfDue_sameSlots (s : State F) (now : Instant) : SameSlots s (s.expireIfDue now) := by
  unfold expireIfDue
  split
  · have h0 : SameSlots s { s with lastExpire := now } := ⟨rfl, rfl, rfl, rfl, rfl, rfl, rfl, rfl⟩
    exact h0.trans (expireAt_sameSlots _ _)
  · exact SameSlots.refl s

theorem expireIfDue_adds {P : ℕ → Prop} (s : State F) (now : Instant) :
    Adds P s (s.expireIfDue now) := by
  unfold expireIfDue
  split
  · have h0 : Adds P s { s with lastExpire := now } := { Adds.refl s with }
    exact h0.trans (expireAt_adds _ _)
  · exact Adds.refl s

theorem expireSyncpoints_sameSlots (s : State F) (now : Instant) :
    SameSlots s (s.expireSyncpoints now) :=
  ⟨rfl, rfl, rfl, rfl, rfl, rfl, rfl, rfl⟩

theorem expireSyncpoints_adds {P : ℕ → Prop} (s : State F) (now : Instant) :
    Adds P s (s.expireSyncpoints now) := by
  refine { Adds.refl s with syncpoints := ?_ }
  intro k sp h r hr
  simp only [expireSyncpoints, Finmap.lookup_retain, Option.filter_eq_some_iff] at h
  exact Or.inl ⟨sp, h.1, hr⟩

omit [F64 F] in
theorem takeGroup_sameSlots (s : State F) (key : String) : SameSlots s (s.takeGroup key) :=
  ⟨rfl, rfl, rfl, rfl, rfl, rfl, rfl, rfl⟩

omit [F64 F] in
theorem takeGroup_adds {P : ℕ → Prop} (s : State F) (key : String) :
    Adds P s (s.takeGroup key) := by
  refine { Adds.refl s with groups := ?_ }
  intro k g h e he
  simp only [takeGroup, Finmap.lookup_erase_ite] at h
  split at h
  · cases h
  · exact Or.inl ⟨g, h, he⟩

theorem solveReady_some (env : Env F) (clk : String → ℕ → Instant) {s : State F} {key : String}
    {g : Group F} (hg : s.groups.lookup key = some g) :
    s.solveReady env clk key = (s.takeGroup key).solveGroup env (clk key) g := by
  unfold solveReady
  rw [hg]

theorem solveGroup_of_members_nil (env : Env F) (s : State F) (clk : ℕ → Instant) {g : Group F}
    (hm : g.members = []) : s.solveGroup env clk g = (s, []) := by
  unfold solveGroup
  rw [if_pos (by rw [hm]; decide)]

/-- A sweep's turn on a key: nothing, or the solve of its group, which has a member. -/
theorem solveReady_cases (env : Env F) (clk : String → ℕ → Instant) (s : State F)
    (key : String) :
    (s.solveReady env clk key).1 = s ∨ (s.solveReady env clk key).1 = s.takeGroup key ∨
    ∃ g, s.groups.lookup key = some g ∧ g.members ≠ [] ∧
      s.solveReady env clk key = (s.takeGroup key).solveGroup env (clk key) g := by
  cases hg : s.groups.lookup key with
  | none =>
    left
    unfold solveReady
    rw [hg]
  | some g =>
    right
    rw [solveReady_some env clk hg]
    by_cases hm : g.members = []
    · rw [solveGroup_of_members_nil env _ _ hm]
      exact Or.inl rfl
    · exact Or.inr ⟨g, rfl, hm, rfl⟩

/-- Taking a group out and solving it: the same slots, and no new mention. -/
theorem solveReady_frame (env : Env F) (clk : String → ℕ → Instant) (s : State F)
    (key : String) :
    SameSlots s (s.solveReady env clk key).1 ∧ Adds s.Mentions s (s.solveReady env clk key).1 := by
  rcases solveReady_cases env clk s key with h | h | ⟨g, hg, hm, h⟩
  · rw [h]
    exact ⟨SameSlots.refl s, Adds.refl s⟩
  · rw [h]
    exact ⟨takeGroup_sameSlots s key, takeGroup_adds s key⟩
  · rw [h]
    have hs := solveGroup_solves env (s.takeGroup key) (clk key) g
    refine ⟨(takeGroup_sameSlots s key).trans hs.toSameSlots, ?_⟩
    -- the reference is a member, and members are mentioned by the group that is taken out
    obtain ⟨e, he, hi⟩ := mem_members.1 (electRef_mem (s.takeGroup key) hm)
    have href : s.Mentions ((s.takeGroup key).electRef g.members) := .entry key g hg e he hi
    exact (takeGroup_adds s key).trans (hs.adds href)

theorem solveAllReady_frame (env : Env F) (clk : String → ℕ → Instant) (s : State F)
    (keys : List String) :
    SameSlots s (solveAllReady env clk s keys).1 ∧
      Adds s.Mentions s (solveAllReady env clk s keys).1 := by
  induction keys generalizing s with
  | nil => exact ⟨SameSlots.refl s, Adds.refl s⟩
  | cons key keys ih =>
    have h1 := solveReady_frame env clk s key
    have h2 := ih (s.solveReady env clk key).1
    exact ⟨h1.1.trans h2.1, h1.2.trans (h2.2.mono fun i hi => (h1.2.mentions hi).elim id id)⟩

theorem sweep_sameSlots (env : Env F) (s : State F) (now : Instant) (window : ℕ)
    (rank : String → ℕ) (clk : String → ℕ → Instant) :
    SameSlots s (s.sweep env now window rank clk).1 :=
  ((expireSyncpoints_sameSlots s now).trans (expireIfDue_sameSlots _ now)).trans
    (solveAllReady_frame env clk _ _).1

theorem sweep_adds (env : Env F) (s : State F) (now : Instant) (window : ℕ)
    (rank : String → ℕ) (clk : String → ℕ → Instant) :
    Adds s.Mentions s (s.sweep env now window rank clk).1 := by
  have h1 : Adds s.Mentions s ((s.expireSyncpoints now).expireIfDue now) :=
    (expireSyncpoints_adds s now).trans (expireIfDue_adds _ now)
  exact h1.trans ((solveAllReady_frame env clk _ _).2.mono
    fun i hi => (h1.mentions hi).elim id id)

/-! ## The exports -/

theorem stateJson_sameSlots (s : State F) (now : Instant) : SameSlots s (s.stateJson now).1 :=
  (expireAt_sameSlots s (s.scaledNow now)).trans
    ⟨rfl, rfl, rfl, rfl, rfl, rfl, rfl, List.length_mapIdx⟩

theorem decayCounters_adds {P : ℕ → Prop} (s : State F) :
    Adds P s s.decayCounters := by
  have hh : ∀ k, s.decayCounters.heardMlat k = s.heardMlat k ∧
      s.decayCounters.heardSync k = s.heardSync k := by
    intro k
    unfold State.heardMlat State.heardSync decayCounters
    simp only [Finmap.lookup_mapVals, Option.map_map]
    exact ⟨rfl, rfl⟩
  exact
    { Adds.refl s with
      heardMlat := fun k i t h => Or.inl ⟨t, (hh k).1 ▸ h⟩
      heardSync := fun k i t h => Or.inl ⟨t, (hh k).2 ▸ h⟩ }

theorem stateJson_adds {P : ℕ → Prop} (s : State F) (now : Instant) :
    Adds P s (s.stateJson now).1 :=
  (expireAt_adds s (s.scaledNow now)).trans (decayCounters_adds _)

/-! ## Every quiet step -/

/-- Only arrivals and departures touch the slots. -/
theorem step_sameSlots (env : Env F) (s : State F) {e : Shard.Event F} (h : e.isQuiet = true) :
    SameSlots s (Shard.step env s e) := by
  cases e with
  | sweep now window rank clk => exact sweep_sameSlots env s now window rank clk
  | msg now heard m =>
    cases m with
    | addReceiver info => cases h
    | removeReceiver r => cases h
    | sync r et ot em om at' => exact onSync_sameSlots env s now r et ot em om at'
    | mlat r t m at' => exact onMlat_sameSlots env s now r t m at'
    | clockReset r => exact clockReset_sameSlots s r
    | receiverStats r => exact receiverStats_sameSlots s r
    | stats => exact SameSlots.refl s
    | syncJson => exact SameSlots.refl s
    | stateJson => exact stateJson_sameSlots s now

end State

end Mlatd
