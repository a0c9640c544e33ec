/-
  The receiver registry (state.rs): its representation invariant over every run of a shard.

  `WellFormed s`: the per-slot vectors have one length, the free list holds each dead slot once,
  `byUser` is the bijection between live slots and their names, pairs come in both directions and
  never of a slot with itself, and no container mentions a dead slot. It holds of a new state and
  every step keeps it (`step_wellFormed`): a step that is not an arrival or a departure has
  `SameSlots` and `Adds`, a departure is a `Frees`, an arrival an `Issues`.
-/
import Mlatd.Registry.Slots
import Mlatd.Sample

namespace Mlatd

variable {F : Type} [F64 F]

namespace State

/-! ## The invariant -/

/-- Pairs come in both directions and never of a slot with itself. -/
structure Paired (m : HashMap (ℕ × ℕ) (PairModel F)) : Prop where
  symm : ∀ a b, (∃ p, m.lookup (a, b) = some p) → ∃ q, m.lookup (b, a) = some q
  irrefl : ∀ a, m.lookup (a, a) = none

structure WellFormed (s : State F) : Prop where
  gens : s.gens.length = s.receivers.length
  alive : s.alive.length = s.receivers.length
  rxBias : s.rxBias.length = s.receivers.length
  rxSync : s.rxSync.length = s.receivers.length
  rxLog : s.rxLog.length = s.receivers.length
  freeSlots_nodup : s.freeSlots.Nodup
  mem_freeSlots : ∀ i, i ∈ s.freeSlots ↔ i < s.receivers.length ∧ s.isAlive i = false
  byUser : ∀ u i, s.byUser.lookup u = some i ↔ s.isAlive i = true ∧ (s.receiver i).user = u
  pairs : Paired s.pairs
  mentions : ∀ i, s.Mentions i → s.isAlive i = true

omit [F64 F] in
theorem lt_of_isAlive (s : State F) {i : ℕ} (h : s.isAlive i = true) : i < s.alive.length := by
  by_contra hlt
  unfold isAlive at h
  rw [List.getD_of_length_le _ (by omega)] at h
  cases h

theorem WellFormed.lt {s : State F} (wf : WellFormed s) {i : ℕ} (h : s.isAlive i = true) :
    i < s.receivers.length :=
  wf.alive ▸ lt_of_isAlive s h

/-- A live slot is named by its receiver. -/
theorem WellFormed.lookup_user {s : State F} (wf : WellFormed s) {i : ℕ}
    (h : s.isAlive i = true) : s.byUser.lookup (s.receiver i).user = some i :=
  (wf.byUser _ i).2 ⟨h, rfl⟩

/-- Live receivers have distinct names. -/
theorem WellFormed.user_inj {s : State F} (wf : WellFormed s) {i j : ℕ}
    (hi : s.isAlive i = true) (hj : s.isAlive j = true)
    (h : (s.receiver i).user = (s.receiver j).user) : i = j := by
  have h1 := wf.lookup_user hi
  rw [h, wf.lookup_user hj] at h1
  exact (Option.some.inj h1).symm

/-! ## Steps that keep the slots -/

theorem WellFormed.of_sameSlots {s s' : State F} (wf : WellFormed s) (h : SameSlots s s')
    (hp : Paired s'.pairs) (hm : Adds (fun i => s.isAlive i = true) s s') :
    WellFormed s' where
  gens := by rw [h.gens, h.receivers, wf.gens]
  alive := by rw [h.alive, h.receivers, wf.alive]
  rxBias := by rw [h.rxBias, h.receivers, wf.rxBias]
  rxSync := by rw [h.rxSync, h.receivers, wf.rxSync]
  rxLog := by rw [h.rxLog, h.receivers, wf.rxLog]
  freeSlots_nodup := by rw [h.freeSlots]; exact wf.freeSlots_nodup
  mem_freeSlots i := by rw [h.freeSlots, h.receivers, h.isAlive]; exact wf.mem_freeSlots i
  byUser u i := by unfold receiver; rw [h.byUser, h.isAlive, h.receivers]; exact wf.byUser u i
  pairs := hp
  mentions i hi := by
    rw [h.isAlive]
    exact (hm.mentions hi).elim (wf.mentions i) id

omit [F64 F] in
theorem Paired.dropPairs {s : State F} (h : Paired s.pairs) (i : ℕ) :
    Paired (s.dropPairs i).pairs where
  symm a b := by
    rintro ⟨p, hp⟩
    simp only [State.dropPairs, Finmap.lookup_retain, Option.filter_eq_some_iff] at hp ⊢
    obtain ⟨q, hq⟩ := h.symm a b ⟨p, hp.1⟩
    refine ⟨q, hq, ?_⟩
    have h1 := hp.2
    simp only [Bool.and_eq_true, decide_eq_true_eq] at h1 ⊢
    exact ⟨h1.2, h1.1⟩
  irrefl a := by
    simp only [State.dropPairs, Finmap.lookup_retain, h.irrefl a, Option.filter_none]

/-- Training an observation of two slots keeps the pairs paired. -/
theorem Paired.trainOnce {s : State F} (h : Paired s.pairs) (icao : Icao) {rx rx2 : ℕ}
    (hne : rx2 ≠ rx) (ta tb : F) : Paired (s.trainOnce icao rx rx2 ta tb).pairs where
  symm a b := by
    rintro ⟨p, hp⟩
    have hkey : ∀ k : ℕ × ℕ, (∃ q, (s.trainOnce icao rx rx2 ta tb).pairs.lookup k = some q) ↔
        k = (rx2, rx) ∨ k = (rx, rx2) ∨ ∃ q, s.pairs.lookup k = some q := by
      intro k
      simp only [State.trainOnce, countSync, pushPair, Finmap.exists_lookup_insert]
    rcases (hkey (a, b)).1 ⟨p, hp⟩ with h1 | h1 | h1
    · cases h1
      exact (hkey _).2 (Or.inr (Or.inl rfl))
    · cases h1
      exact (hkey _).2 (Or.inl rfl)
    · exact (hkey _).2 (Or.inr (Or.inr (h.symm a b h1)))
  irrefl a := by
    simp only [State.trainOnce, countSync, pushPair, Finmap.lookup_insert_ite]
    have h1 : (a, a) ≠ (rx2, rx) := fun h => hne (by cases h; rfl)
    have h2 : (a, a) ≠ (rx, rx2) := fun h => hne (by cases h; rfl)
    rw [if_neg h1, if_neg h2, h.irrefl a]

theorem Paired.trainPair {s : State F} (h : Paired s.pairs) (icao : Icao) (rx : ℕ) (te to' : F)
    (other : ℕ × F × F) : Paired (trainPair icao rx te to' s other).pairs := by
  obtain ⟨rx2, te2, to2⟩ := other
  simp only [State.trainPair]
  split
  · exact h
  · next hne =>
    have hne : rx2 ≠ rx := fun h => hne (Or.inl h)
    exact (h.trainOnce icao hne te te2).trainOnce icao hne to' to2

theorem Paired.foldl_trainPair {s : State F} (h : Paired s.pairs) (icao : Icao) (rx : ℕ)
    (te to' : F) (others : List (ℕ × F × F)) :
    Paired (others.foldl (State.trainPair icao rx te to') s).pairs := by
  induction others generalizing s with
  | nil => exact h
  | cons o others ih => exact ih (h.trainPair icao rx te to' o)

theorem Paired.trainSync {s : State F} (h : Paired s.pairs) (now : Instant) (rx : ℕ)
    (icao : Icao) (key : String × String) (te to' : F) :
    Paired (s.trainSync now rx icao key te to').pairs := by
  simp only [State.trainSync]
  split
  · exact h
  · refine Paired.foldl_trainPair ?_ icao rx te to' _
    exact h

theorem onMlat_pairs (env : Env F) (s : State F) (now : Instant) (r : RxRef) (t : F)
    (m : String) (at' : F) : (s.onMlat env now r t m at').pairs = s.pairs := by
  rcases onMlat_cases env s now r t m at' with h | ⟨-, icao, alts, raw, tS, -, h⟩
  · rw [h]
  · rw [h]
    rfl

theorem Paired.onSync {s : State F} (h : Paired s.pairs) (env : Env F) (now : Instant)
    (r : RxRef) (et ot : F) (em om : String) (at' : F) :
    Paired (s.onSync env now r et ot em om at').pairs := by
  rcases onSync_cases env s now r et ot em om at' with
    h1 | ⟨-, icao, h1 | ⟨de, pe, te, to', s1, -, h2, h1⟩⟩
  · rw [h1]
    exact h
  · rw [h1]
    exact h
  · rw [h1]
    refine Paired.trainSync ?_ now r.idx icao (em, om) te to'
    rcases h2 with rfl | rfl
    · exact h
    · rw [onMlat_pairs]
      exact h

theorem solveAllReady_pairs (env : Env F) (clk : String → ℕ → Instant) (s : State F)
    (keys : List String) : (solveAllReady env clk s keys).1.pairs = s.pairs := by
  induction keys generalizing s with
  | nil => rfl
  | cons key keys ih =>
    have h1 : (s.solveReady env clk key).1.pairs = s.pairs := by
      rcases solveReady_cases env clk s key with h | h | ⟨g, -, -, h⟩
      · rw [h]
      · rw [h]
        rfl
      · rw [h]
        exact (solveGroup_solves env (s.takeGroup key) (clk key) g).pairs
    exact (ih _).trans h1

theorem sweep_pairs (env : Env F) (s : State F) (now : Instant) (window : ℕ)
    (rank : String → ℕ) (clk : String → ℕ → Instant) :
    (s.sweep env now window rank clk).1.pairs = s.pairs := by
  have h1 : ((s.expireSyncpoints now).expireIfDue now).pairs = s.pairs := by
    unfold expireIfDue
    split <;> rfl
  exact (solveAllReady_pairs env clk _ _).trans h1

/-! ## A departure -/

theorem Frees.isAlive {s s' : State F} {i : ℕ} (h : Frees s s' i) (j : ℕ) :
    s'.isAlive j = if j = i then false else s.isAlive j := by
  unfold State.isAlive
  rw [h.alive, List.getD_set_ite _ (lt_of_isAlive s h.held)]

theorem Frees.receiver {s s' : State F} {i : ℕ} (h : Frees s s' i) (j : ℕ) :
    s'.receiver j = s.receiver j := by
  unfold State.receiver
  rw [h.receivers]

theorem Frees.gen {s s' : State F} {i : ℕ} (h : Frees s s' i) (j : ℕ) : s'.gen j = s.gen j := by
  unfold State.gen
  rw [h.gens]

/-- In a well-formed state the freed slot's name is free. -/
theorem Frees.lookup_byUser {s s' : State F} {i : ℕ} (h : Frees s s' i) (wf : WellFormed s)
    (u : String) :
    s'.byUser.lookup u = if u = (s.receiver i).user then none else s.byUser.lookup u := by
  rw [h.byUser, if_pos (wf.lookup_user h.held), Finmap.lookup_erase_ite]

theorem Frees.wellFormed {s s' : State F} {i : ℕ} (h : Frees s s' i) (wf : WellFormed s) :
    WellFormed s' where
  gens := by rw [h.gens, h.receivers, wf.gens]
  alive := by rw [h.alive, List.length_set, h.receivers, wf.alive]
  rxBias := by rw [h.rxBias, h.receivers, wf.rxBias]
  rxSync := by rw [h.rxSync, h.receivers, wf.rxSync]
  rxLog := by rw [h.rxLog, h.receivers, wf.rxLog]
  freeSlots_nodup := by
    have hi : i ∉ s.freeSlots := by
      rw [wf.mem_freeSlots, h.held]
      simp
    rw [h.freeSlots, List.nodup_append]
    refine ⟨wf.freeSlots_nodup, List.nodup_singleton i, ?_⟩
    rintro a ha b hb rfl
    exact hi (List.mem_singleton.1 hb ▸ ha)
  mem_freeSlots j := by
    rw [h.freeSlots, List.mem_append, List.mem_singleton, wf.mem_freeSlots, h.receivers, h.isAlive]
    by_cases hj : j = i
    · rw [if_pos hj, hj]
      simp [h.lt]
    · simp [hj]
  byUser u j := by
    rw [h.lookup_byUser wf, h.isAlive, h.receiver]
    by_cases hj : j = i
    · rw [if_pos hj, hj]
      by_cases hu : u = (s.receiver i).user
      · simp [hu]
      · rw [if_neg hu, wf.byUser]
        simp [Ne.symm hu]
    · rw [if_neg hj]
      by_cases hu : u = (s.receiver i).user
      · rw [if_pos hu]
        have hne : ¬ (s.isAlive j = true ∧ (s.receiver j).user = u) := by
          rintro ⟨h1, h2⟩
          exact hj (wf.user_inj h1 h.held (h2.trans hu))
        simp only [hne, iff_false]
        exact fun h => by cases h
      · rw [if_neg hu, wf.byUser]
  pairs := by
    rw [h.pairs]
    exact wf.pairs.dropPairs i
  mentions j hj := by
    have hne : j ≠ i := fun he => h.forgotten (he ▸ hj)
    rw [h.isAlive, if_neg hne]
    exact wf.mentions j ((h.adds.mentions hj).resolve_right id)

theorem removeReceiver_wellFormed {s : State F} (wf : WellFormed s) (r : RxRef) :
    WellFormed (s.removeReceiver r) := by
  cases h : s.live r with
  | false =>
    rw [removeReceiver_of_not_live s h]
    exact wf
  | true => exact (removeReceiver_frees s h).wellFormed wf

/-- A live slot can be evicted. -/
theorem evict_frees {s : State F} (wf : WellFormed s) {i : ℕ} (h : s.isAlive i = true) :
    Frees s (s.evict i) i :=
  removeReceiver_frees s ((live_iff s ⟨i, s.gen i⟩).2 ⟨wf.lt h, h, rfl⟩)

/-! ## An arrival -/

section
variable {s s' : State F} {i : ℕ} {info : ReceiverInfo F}

/-- The slot of an issue was dead, or past the end. -/
theorem Issues.dead (h : Issues s s' i info) (wf : WellFormed s) : s.isAlive i = false := by
  rcases h.slot with ⟨h1, -⟩ | ⟨-, h1, -⟩
  · exact ((wf.mem_freeSlots i).1 (List.mem_of_getLast? h1)).2
  · unfold State.isAlive
    rw [List.getD_of_length_le _ (by rw [wf.alive, h1])]

theorem Issues.isAlive (h : Issues s s' i info) (wf : WellFormed s) (j : ℕ) :
    s'.isAlive j = if j = i then true else s.isAlive j := by
  unfold State.isAlive
  rcases h.slot with ⟨h1, -, -, h2, -⟩ | ⟨-, h1, -, -, h2, -⟩
  · have hi : i < s.alive.length :=
      wf.alive ▸ ((wf.mem_freeSlots i).1 (List.mem_of_getLast? h1)).1
    rw [h2, List.getD_set_ite _ hi]
  · rw [h2, List.getD_concat_ite, wf.alive, h1]

theorem Issues.receiver (h : Issues s s' i info) (wf : WellFormed s) (j : ℕ) :
    s'.receiver j = if j = i then info else s.receiver j := by
  unfold State.receiver
  rcases h.slot with ⟨h1, -, h2, -⟩ | ⟨-, h1, -, h2, -⟩
  · have hi := ((wf.mem_freeSlots i).1 (List.mem_of_getLast? h1)).1
    rw [h2, List.getD_set_ite _ hi]
  · rw [h2, List.getD_concat_ite, h1]

/-- A reissue bumps the generation of its slot, and of no other. -/
theorem Issues.gen (h : Issues s s' i info) (wf : WellFormed s) (j : ℕ) :
    s'.gen j = if j = i ∧ i < s.receivers.length then s.gen i + 1 else s.gen j := by
  unfold State.gen
  rcases h.slot with ⟨h1, -, -, -, h2, -⟩ | ⟨-, h1, -, -, -, h2, -⟩
  · have hi := ((wf.mem_freeSlots i).1 (List.mem_of_getLast? h1)).1
    rw [h2, List.getD_set_ite _ (by rw [wf.gens]; exact hi)]
    simp only [hi, and_true]
    rfl
  · rw [h2, List.getD_concat_ite, wf.gens, if_neg (by omega : ¬ (j = i ∧ i < s.receivers.length))]
    split
    · next hj => rw [List.getD_of_length_le _ (by rw [wf.gens, hj])]
    · rfl

theorem Issues.length (h : Issues s s' i info) (wf : WellFormed s) :
    s'.receivers.length = max s.receivers.length (i + 1) := by
  rcases h.slot with ⟨h1, -, h2, -⟩ | ⟨-, h1, -, h2, -⟩
  · have hi := ((wf.mem_freeSlots i).1 (List.mem_of_getLast? h1)).1
    rw [h2, List.length_set]
    omega
  · rw [h2, List.length_append, List.length_singleton]
    omega

theorem Issues.mem_freeSlots (h : Issues s s' i info) (wf : WellFormed s) (j : ℕ) :
    j ∈ s'.freeSlots ↔ j ∈ s.freeSlots ∧ j ≠ i := by
  rcases h.slot with ⟨h1, h2, -⟩ | ⟨h1, -, h2, -⟩
  · rw [h2]
    exact List.mem_dropLast_iff wf.freeSlots_nodup h1 j
  · rw [h2, h1]
    simp

/-- The slot of an issue carries nothing of an earlier holder. -/
theorem Issues.fresh (h : Issues s s' i info) (wf : WellFormed s) :
    ¬ s'.Mentions i ∧ s'.rxBias[i]? = some RxBias.default ∧ s'.rxSync[i]? = some (0.0, 0.0) ∧
      ∃ log, s'.rxLog[i]? = some log ∧ log.msgs = 0 ∧ log.sync = ∅ ∧ log.mlat = ∅ := by
  have hdead : ¬ s'.Mentions i := by
    intro hm
    have h1 := wf.mentions i ((h.adds.mentions hm).resolve_right id)
    rw [h.dead wf] at h1
    cases h1
  refine ⟨hdead, ?_⟩
  rcases h.slot with ⟨h1, -, -, -, -, h2, h3, h4⟩ | ⟨-, h1, -, -, -, -, h2, h3, h4⟩
  · have hlt := ((wf.mem_freeSlots i).1 (List.mem_of_getLast? h1)).1
    rw [h2, h3, h4]
    refine ⟨?_, ?_, ⟨0, ∅, ∅, mapPosition info⟩, ?_, rfl, rfl, rfl⟩
    · exact List.getElem?_set_self (by rw [wf.rxBias]; exact hlt)
    · exact List.getElem?_set_self (by rw [wf.rxSync]; exact hlt)
    · exact List.getElem?_set_self (by rw [wf.rxLog]; exact hlt)
  · rw [h2, h3, h4, h1]
    refine ⟨?_, ?_, ⟨0, ∅, ∅, mapPosition info⟩, ?_, rfl, rfl, rfl⟩
    · rw [← wf.rxBias]
      exact List.getElem?_concat_length
    · rw [← wf.rxSync]
      exact List.getElem?_concat_length
    · rw [← wf.rxLog]
      exact List.getElem?_concat_length

theorem Issues.wellFormed (h : Issues s s' i info) (wf : WellFormed s)
    (hu : s.byUser.lookup info.user = none) : WellFormed s' where
  gens := by
    rcases h.slot with ⟨-, -, h2, -, h3, -⟩ | ⟨-, -, -, h2, -, h3, -⟩
    · rw [h3, h2, List.length_set, List.length_set, wf.gens]
    · rw [h3, h2, List.length_append, List.length_append, wf.gens]
      rfl
  alive := by
    rcases h.slot with ⟨-, -, h2, h3, -⟩ | ⟨-, -, -, h2, h3, -⟩
    · rw [h3, h2, List.length_set, List.length_set, wf.alive]
    · rw [h3, h2, List.length_append, List.length_append, wf.alive]
      rfl
  rxBias := by
    rcases h.slot with ⟨-, -, h2, -, -, h3, -⟩ | ⟨-, -, -, h2, -, -, h3, -⟩
    · rw [h3, h2, List.length_set, List.length_set, wf.rxBias]
    · rw [h3, h2, List.length_append, List.length_append, wf.rxBias]
      rfl
  rxSync := by
    rcases h.slot with ⟨-, -, h2, -, -, -, h3, -⟩ | ⟨-, -, -, h2, -, -, -, h3, -⟩
    · rw [h3, h2, List.length_set, List.length_set, wf.rxSync]
    · rw [h3, h2, List.length_append, List.length_append, wf.rxSync]
      rfl
  rxLog := by
    rcases h.slot with ⟨-, -, h2, -, -, -, -, h3⟩ | ⟨-, -, -, h2, -, -, -, -, h3⟩
    · rw [h3, h2, List.length_set, List.length_set, wf.rxLog]
    · rw [h3, h2, List.length_append, List.length_append, wf.rxLog]
      rfl
  freeSlots_nodup := by
    rcases h.slot with ⟨-, h2, -⟩ | ⟨-, -, h2, -⟩
    · rw [h2]
      exact wf.freeSlots_nodup.sublist (List.dropLast_sublist _)
    · rw [h2]
      exact List.nodup_nil
  mem_freeSlots j := by
    rw [h.mem_freeSlots wf, wf.mem_freeSlots, h.length wf, h.isAlive wf]
    by_cases hj : j = i
    · simp [hj]
    · rw [if_neg hj]
      have hlt : s.isAlive j = false →
          (j < s.receivers.length ↔ j < max s.receivers.length (i + 1)) := by
        intro _
        rcases h.slot with ⟨h1, -⟩ | ⟨-, h1, -⟩
        · have hi := ((wf.mem_freeSlots i).1 (List.mem_of_getLast? h1)).1
          omega
        · omega
      constructor
      · rintro ⟨⟨h1, h2⟩, -⟩
        exact ⟨(hlt h2).1 h1, h2⟩
      · rintro ⟨h1, h2⟩
        exact ⟨⟨(hlt h2).2 h1, h2⟩, hj⟩
  byUser u j := by
    rw [h.byUser, Finmap.lookup_insert_ite, h.isAlive wf, h.receiver wf]
    by_cases hj : j = i
    · rw [if_pos hj, if_pos hj, hj]
      by_cases hu' : u = info.user
      · simp [hu']
      · rw [if_neg hu', wf.byUser, h.dead wf]
        simp [Ne.symm hu']
    · rw [if_neg hj, if_neg hj]
      by_cases hu' : u = info.user
      · rw [if_pos hu', ← wf.byUser, hu', hu]
        simp [Ne.symm hj]
      · rw [if_neg hu', wf.byUser]
  pairs := by
    rw [h.pairs]
    exact wf.pairs
  mentions j hj := by
    have h1 := wf.mentions j ((h.adds.mentions hj).resolve_right id)
    rw [h.isAlive wf]
    split
    · rfl
    · exact h1

end

/-- The state an issue of `addReceiver` starts from: well formed, with the name free. -/
theorem addReceiver_issues {s : State F} (wf : WellFormed s) {now : Instant} {heard : ℕ → F}
    {info : ReceiverInfo F} {r : RxRef} (h : (s.addReceiver now heard info).2 = some r) :
    ∃ s0 user, (s0 = s ∨ ∃ i, s.isAlive i = true ∧ (s.receiver i).user = user ∧ Frees s s0 i) ∧
      WellFormed s0 ∧ s0.byUser.lookup user = none ∧
      Issues s0 (s.addReceiver now heard info).1 r.idx { info with user := user } ∧
      (s.addReceiver now heard info).1.gen r.idx = r.gen := by
  rcases addReceiver_cases s now heard info with
    ⟨-, h1⟩ | ⟨user, ⟨-, hu, h1⟩ | ⟨i, -, hu, h1⟩⟩
  · rw [h1] at h
    cases h
  · rw [h1] at h ⊢
    cases h
    exact ⟨s, user, Or.inl rfl, wf, hu, issue_issues s _, issue_gen s _⟩
  · rw [h1] at h ⊢
    cases h
    obtain ⟨ha, hn⟩ := (wf.byUser user i).1 hu
    have hf := evict_frees wf ha
    refine ⟨s.evict i, user, Or.inr ⟨i, ha, hn, hf⟩, hf.wellFormed wf, ?_, issue_issues _ _,
      issue_gen _ _⟩
    rw [hf.lookup_byUser wf, if_pos hn.symm]

theorem addReceiver_none {s : State F} {now : Instant} {heard : ℕ → F} {info : ReceiverInfo F}
    (h : (s.addReceiver now heard info).2 = none) : (s.addReceiver now heard info).1 = s := by
  rcases addReceiver_cases s now heard info with ⟨-, h1⟩ | ⟨user, ⟨-, -, h1⟩ | ⟨i, -, -, h1⟩⟩
  · rw [h1]
  · rw [h1] at h
    cases h
  · rw [h1] at h
    cases h

theorem addReceiver_wellFormed {s : State F} (wf : WellFormed s) (now : Instant)
    (heard : ℕ → F) (info : ReceiverInfo F) : WellFormed (s.addReceiver now heard info).1 := by
  cases h : (s.addReceiver now heard info).2 with
  | none =>
    rw [addReceiver_none h]
    exact wf
  | some r =>
    obtain ⟨s0, user, -, wf0, hu, hi, -⟩ := addReceiver_issues wf h
    exact hi.wellFormed wf0 hu

/-! ## Every step, every run -/

theorem boot_wellFormed (c : Shard.Config F) : WellFormed (Shard.boot c) where
  gens := rfl
  alive := rfl
  rxBias := rfl
  rxSync := rfl
  rxLog := rfl
  freeSlots_nodup := List.nodup_nil
  mem_freeSlots i := by simp [Shard.boot, new]
  byUser u i := by simp [Shard.boot, new, isAlive]
  pairs := ⟨fun a b ⟨p, hp⟩ => by simp [Shard.boot, new] at hp, fun _ => rfl⟩
  mentions i hi := by
    cases hi with
    | pairFrom j p h => cases h
    | pairTo j p h => cases h
    | reporter k sp h => cases h
    | entry k g h => cases h
    | mlat icao t h => cases h
    | sync icao t h => cases h
    | offset o h => cases h

theorem onSync_of_not_live (env : Env F) {s : State F} {r : RxRef} (h : s.live r = false)
    (now : Instant) (et ot : F) (em om : String) (at' : F) :
    s.onSync env now r et ot em om at' = s := by
  unfold onSync
  rw [h]
  rfl

theorem onMlat_of_not_live (env : Env F) {s : State F} {r : RxRef} (h : s.live r = false)
    (now : Instant) (t : F) (m : String) (at' : F) : s.onMlat env now r t m at' = s := by
  unfold onMlat
  rw [h]
  rfl

theorem onSync_wellFormed (env : Env F) {s : State F} (wf : WellFormed s) (now : Instant)
    (r : RxRef) (et ot : F) (em om : String) (at' : F) :
    WellFormed (s.onSync env now r et ot em om at') := by
  cases hl : s.live r with
  | false =>
    rw [onSync_of_not_live env hl]
    exact wf
  | true =>
    have ha := ((live_iff s r).1 hl).2.1
    refine wf.of_sameSlots (onSync_sameSlots env s now r et ot em om at')
      (wf.pairs.onSync env now r et ot em om at') ?_
    refine (onSync_adds env s now r et ot em om at').mono ?_
    rintro i (rfl | hi)
    · exact ha
    · exact wf.mentions i hi

theorem onMlat_wellFormed (env : Env F) {s : State F} (wf : WellFormed s) (now : Instant)
    (r : RxRef) (t : F) (m : String) (at' : F) :
    WellFormed (s.onMlat env now r t m at') := by
  cases hl : s.live r with
  | false =>
    rw [onMlat_of_not_live env hl]
    exact wf
  | true =>
    have ha := ((live_iff s r).1 hl).2.1
    refine wf.of_sameSlots (onMlat_sameSlots env s now r t m at') ?_
      (onMlat_adds env s now r t m at' ha)
    rw [onMlat_pairs]
    exact wf.pairs

theorem clockReset_wellFormed {s : State F} (wf : WellFormed s) (r : RxRef) :
    WellFormed (s.clockReset r) := by
  refine wf.of_sameSlots (clockReset_sameSlots s r) ?_ (clockReset_adds s r)
  unfold clockReset
  split
  · exact wf.pairs
  · exact wf.pairs.dropPairs r.idx

theorem receiverStats_wellFormed {s : State F} (wf : WellFormed s) (r : RxRef) :
    WellFormed (s.receiverStats r).1 := by
  refine wf.of_sameSlots (receiverStats_sameSlots s r) ?_ (receiverStats_adds s r)
  unfold receiverStats
  split
  · exact wf.pairs
  · exact wf.pairs

theorem sweep_wellFormed (env : Env F) {s : State F} (wf : WellFormed s) (now : Instant)
    (window : ℕ) (rank : String → ℕ) (clk : String → ℕ → Instant) :
    WellFormed (s.sweep env now window rank clk).1 := by
  refine wf.of_sameSlots (sweep_sameSlots env s now window rank clk) ?_
    ((sweep_adds env s now window rank clk).mono wf.mentions)
  rw [sweep_pairs]
  exact wf.pairs

theorem step_wellFormed (env : Env F) (s : State F) (e : Shard.Event F) (wf : WellFormed s) :
    WellFormed (Shard.step env s e) := by
  cases e with
  | sweep now window rank clk => exact sweep_wellFormed env wf now window rank clk
  | msg now heard m =>
    cases m with
    | addReceiver info => exact addReceiver_wellFormed wf now heard info
    | removeReceiver r => exact removeReceiver_wellFormed wf r
    | sync r et ot em om at' => exact onSync_wellFormed env wf now r et ot em om at'
    | mlat r t m at' => exact onMlat_wellFormed env wf now r t m at'
    | clockReset r => exact clockReset_wellFormed wf r
    | receiverStats r => exact receiverStats_wellFormed wf r
    | stats => exact wf
    | syncJson => exact wf
    | stateJson =>
      exact wf.of_sameSlots (stateJson_sameSlots s now) wf.pairs (stateJson_adds s now)

theorem run_wellFormed (env : Env F) (c : Shard.Config F) (es : List (Shard.Event F)) :
    WellFormed (Shard.run env (Shard.boot c) es) :=
  Run.invariant (step_wellFormed env) (boot_wellFormed c) es

/-! ## Names and live slots -/

/-- Live receivers are counted by the slots they hold. -/
theorem WellFormed.liveReceivers_eq {s : State F} (wf : WellFormed s) :
    s.liveReceivers = s.liveSlots.length := by
  unfold liveReceivers liveSlots
  rw [List.eq_map_getD s.alive false, List.filter_map, List.length_map, ← wf.alive]
  rfl

/-- There are as many names as live receivers. -/
theorem WellFormed.len_byUser {s : State F} (wf : WellFormed s) :
    s.byUser.len = s.liveReceivers := by
  have hmem : ∀ i, i ∈ s.liveSlots ↔ s.isAlive i = true := by
    intro i
    simp only [liveSlots, List.mem_filter, List.mem_range]
    exact ⟨fun h => h.2, fun h => ⟨wf.lt h, h⟩⟩
  have hkeys : s.byUser.keys = s.liveSlots.toFinset.image fun i => (s.receiver i).user := by
    ext u
    rw [Finmap.mem_keys_iff_lookup, Finset.mem_image]
    constructor
    · rintro ⟨i, hi⟩
      obtain ⟨h1, h2⟩ := (wf.byUser u i).1 hi
      exact ⟨i, List.mem_toFinset.2 ((hmem i).2 h1), h2⟩
    · rintro ⟨i, hi, rfl⟩
      exact ⟨i, wf.lookup_user ((hmem i).1 (List.mem_toFinset.1 hi))⟩
  have hnodup : s.liveSlots.Nodup := List.nodup_range.filter _
  have hinj : Set.InjOn (fun i => (s.receiver i).user) (s.liveSlots.toFinset : Set ℕ) := by
    intro i hi j hj hij
    exact wf.user_inj ((hmem i).1 (List.mem_toFinset.1 hi)) ((hmem j).1 (List.mem_toFinset.1 hj))
      hij
  unfold Finmap.len
  rw [hkeys, Finset.card_image_of_injOn hinj, List.toFinset_card_of_nodup hnodup,
    wf.liveReceivers_eq]

/-- **The registry is well formed in every reachable state**, names and live receivers correspond
    one to one, and a refused arrival changes nothing. -/
theorem registry_invariant (env : Env F) (c : Shard.Config F) (es : List (Shard.Event F)) :
    let s := Shard.run env (Shard.boot c) es
    WellFormed s ∧ s.byUser.len = s.liveReceivers ∧
      (∀ i j, s.isAlive i = true → s.isAlive j = true →
        (s.receiver i).user = (s.receiver j).user → i = j) ∧
      ∀ now heard info, (s.addReceiver now heard info).2 = none →
        (s.addReceiver now heard info).1 = s := by
  have wf := run_wellFormed env c es
  exact ⟨wf, wf.len_byUser, fun _ _ => wf.user_inj, fun _ _ _ => addReceiver_none⟩

/-! ## A reissued slot is a new one -/

/-- **A slot just issued carries nothing of an earlier holder**, after every run. -/
theorem issued_slot_fresh (env : Env F) (c : Shard.Config F) (es : List (Shard.Event F))
    (now : Instant) (heard : ℕ → F) (info : ReceiverInfo F) (r : RxRef)
    (h : ((Shard.run env (Shard.boot c) es).addReceiver now heard info).2 = some r) :
    let s := ((Shard.run env (Shard.boot c) es).addReceiver now heard info).1
    ¬ s.Mentions r.idx ∧ s.rxBias[r.idx]? = some RxBias.default ∧
      s.rxSync[r.idx]? = some (0.0, 0.0) ∧
      ∃ log, s.rxLog[r.idx]? = some log ∧ log.msgs = 0 ∧ log.sync = ∅ ∧ log.mlat = ∅ := by
  have wf := run_wellFormed env c es
  obtain ⟨s0, user, -, wf0, -, hi, -⟩ := addReceiver_issues wf h
  exact hi.fresh wf0

/-- A slot issued, reported on and given back. -/
def usedSlot : List (Shard.Event ℚ) :=
  [Sample.arrives 1 "Home" none, Sample.at' 2 2 (.mlat ⟨0, 0⟩ 24000000 Sample.allCall 2),
    Sample.at' 3 3 (.removeReceiver ⟨0, 0⟩)]

theorem used_slot_fresh :
    let s := ((Shard.run Sample.env (Shard.boot Sample.config) usedSlot).addReceiver 4
      (fun _ => 4) (Sample.feeder "Away" none)).1
    ¬ s.Mentions 0 ∧ s.rxBias[0]? = some RxBias.default ∧
      s.rxSync[0]? = some ((0.0, 0.0) : ℚ × ℚ) ∧
      ∃ log, s.rxLog[0]? = some log ∧ log.msgs = 0 ∧ log.sync = ∅ ∧ log.mlat = ∅ :=
  issued_slot_fresh Sample.env Sample.config usedSlot 4 (fun _ => 4) (Sample.feeder "Away" none)
    ⟨0, 1⟩ (by decide +kernel)

end State

end Mlatd
