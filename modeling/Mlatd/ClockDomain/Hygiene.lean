/-
  Clock-domain hygiene over every run of a shard.

  Solving moves one offset, that of the group's reference, and what it moves it by is held under
  live slots. A departure and an arrival leave nothing under their slot, so its clock may date
  from them. A clock reset leaves the slot's offset: it is the one step that can break hygiene, and
  it does exactly when an offset is there (`clock_hygiene_iff`).
-/
import Mlatd.ClockDomain.Provenance
import Mlatd.Sample

namespace Mlatd

variable {F : Type} [F64 F]

open State Provenance

/-! ## The sweep -/

/-- A group too small to solve changes nothing. -/
theorem solveGroup_of_short (env : Env F) (s : State F) (clk : ℕ → Instant) {g : Group F}
    (h : g.members.length < 4 ∨ (s.conv g).length < 4) : s.solveGroup env clk g = (s, []) := by
  unfold State.solveGroup
  rcases h with h | h
  · rw [if_pos h]
  · split
    · rfl
    · simp only [if_pos h]

/-- What a group reads of slot `i` is an entry of it or a pair of it. -/
theorem mem_ofGroup {s : State F} {g : Provenance} (t : Traced s g) {key : String}
    {grp : Group F} (hg : s.groups.lookup key = some grp) {i n : ℕ}
    (h : (i, n) ∈ g.ofGroup s key grp) :
    s.hasEntry key i = true ∧ (i, n) ∈ g.entry key i ∨
      ∃ k, (k.1 = i ∨ k.2 = i) ∧ s.hasPair k = true ∧ (i, n) ∈ g.pair k := by
  unfold Provenance.ofGroup at h
  rcases Finset.mem_union.1 h with h1 | h1
  · obtain ⟨m, hm, h2⟩ := Finset.mem_biUnion.1 h1
    have hmi : i = m := t.entry key m _ h2
    subst hmi
    obtain ⟨e, he, hi⟩ := mem_members.1 (List.mem_toFinset.1 hm)
    exact Or.inl ⟨hasEntry_iff.2 ⟨grp, hg, e, he, hi⟩, h2⟩
  · obtain ⟨k, hk, h2⟩ := Finset.mem_biUnion.1 h1
    refine Or.inr ⟨k, ?_, (Finset.mem_filter.1 hk).2, h2⟩
    exact (t.pair k _ h2).imp Eq.symm Eq.symm

theorem solveReady_hygiene (env : Env F) (clk : String → ℕ → Instant) {s : State F}
    {g : Provenance} (h : Hygiene s g) (t : Traced s g) (key : String) :
    Hygiene (s.solveReady env clk key).1 (g.solveReady s key) ∧
      Traced (s.solveReady env clk key).1 (g.solveReady s key) := by
  have hslots := (solveReady_frame env clk s key).1
  cases hg : s.groups.lookup key with
  | none =>
    unfold State.solveReady Provenance.solveReady
    rw [hg]
    exact ⟨h, t⟩
  | some grp =>
    rw [solveReady_some env clk hg] at hslots ⊢
    have htake : Fewer s (s.takeGroup key) := (takeGroup_adds s key).fewer
    by_cases hshort : grp.members.length < 4 ∨ ((s.takeGroup key).conv grp).length < 4
    · have hgs : g.solveReady s key = g := by
        unfold Provenance.solveReady
        rw [hg]
        exact if_pos hshort
      rw [hgs, solveGroup_of_short env _ _ hshort]
      exact ⟨h.of_fewer htake fun _ hi => hi, t.of_fewer htake⟩
    · have hs := solveGroup_solves env (s.takeGroup key) (clk key) grp
      have hne : grp.members ≠ [] := by
        intro hm
        apply hshort
        rw [hm]
        exact Or.inl (by decide)
      have href := electRef_mem (s.takeGroup key) hne
      set ref := (s.takeGroup key).electRef grp.members with hrefdef
      obtain ⟨e, he, hei⟩ := mem_members.1 href
      have hentry : s.hasEntry key ref = true := hasEntry_iff.2 ⟨grp, hg, e, he, hei⟩
      have hgs : g.solveReady s key = { g with
          offset := fun i =>
            if i = ref then carried (s.hasOffset ref) (g.offset ref) ∪ g.ofGroup s key grp
            else g.offset i } := by
        unfold Provenance.solveReady
        rw [hg]
        exact if_neg hshort
      rw [hgs]
      set s' := ((s.takeGroup key).solveGroup env (clk key) grp).1 with hs'
      -- all but the reference's offset is held as the taken group leaves it
      have hpair : ∀ k, s'.hasPair k = s.hasPair k := fun k => by
        unfold hasPair
        rw [hs.pairs]
        rfl
      have hrep : ∀ k i, s'.hasReporter k i = s.hasReporter k i := fun k i => by
        unfold hasReporter
        rw [hs.syncpoints]
        rfl
      have hent : ∀ k i, s'.hasEntry k i = true → s.hasEntry k i = true := fun k i hh => by
        refine htake.entry k i ?_
        unfold hasEntry at hh ⊢
        rwa [hs.groups] at hh
      have hoff : ∀ i, i ≠ ref → s'.hasOffset i = s.hasOffset i := fun i hi => by
        unfold hasOffset
        rw [hs.stampOffset i hi]
        rfl
      constructor
      · refine ⟨?_, ?_, ?_, ?_⟩
        · intro i k n hi hk hh
          exact h.pair i k n (hslots.isAlive i ▸ hi) hk (hpair k ▸ hh)
        · intro i k n hi hh
          exact h.reporter i k n (hslots.isAlive i ▸ hi) (hrep k i ▸ hh)
        · intro i k n hi hh
          exact h.entry i k n (hslots.isAlive i ▸ hi) (hent k i hh)
        · intro i n hi hh hn
          have hi' : s.isAlive i = true := hslots.isAlive i ▸ hi
          by_cases hir : i = ref
          · simp only [if_pos hir] at hn
            rcases Finset.mem_union.1 hn with h1 | h1
            · obtain ⟨hheld, h2⟩ := mem_carried h1
              exact h.offset i n hi' (hir ▸ hheld) (hir ▸ h2)
            · rcases mem_ofGroup t hg h1 with ⟨hheld, h2⟩ | ⟨k, hk, hheld, h2⟩
              · exact h.entry i key n hi' hheld h2
              · exact h.pair i k n hi' hk hheld h2
          · simp only [if_neg hir] at hn
            exact h.offset i n hi' (hoff i hir ▸ hh) hn
      · refine ⟨t.epoch, t.pair, t.reporter, t.entry, ?_, ?_⟩
        · intro k i hh
          exact t.entry_own k i (hent k i hh)
        · intro i hh
          by_cases hir : i = ref
          · obtain ⟨n, h1, h2⟩ := t.entry_own key ref hentry
            refine ⟨n, h1, ?_⟩
            simp only [if_pos hir]
            rw [hir]
            refine Finset.mem_union_right _ (Finset.mem_union_left _ ?_)
            exact Finset.mem_biUnion.2 ⟨ref, List.mem_toFinset.2 href, h2⟩
          · simp only [if_neg hir]
            exact t.offset_own i (hoff i hir ▸ hh)

theorem solveAllReady_hygiene (env : Env F) (clk : String → ℕ → Instant) {s : State F}
    {g : Provenance} (h : Hygiene s g) (t : Traced s g) (keys : List String) :
    Hygiene (s.solveAllReady env clk keys).1 (g.solveAllReady env clk s keys) ∧
      Traced (s.solveAllReady env clk keys).1 (g.solveAllReady env clk s keys) := by
  induction keys generalizing s g with
  | nil => exact ⟨h, t⟩
  | cons key keys ih =>
    obtain ⟨h1, t1⟩ := solveReady_hygiene env clk h t key
    exact ih h1 t1

theorem sweep_hygiene (env : Env F) {s : State F} {g : Provenance} (h : Hygiene s g)
    (t : Traced s g) (now : Instant) (window : ℕ) (rank : String → ℕ)
    (clk : String → ℕ → Instant) :
    Hygiene (s.sweep env now window rank clk).1 (g.handle env s (.sweep now window rank clk)) ∧
      Traced (s.sweep env now window rank clk).1
        (g.handle env s (.sweep now window rank clk)) := by
  have hf : Fewer s ((s.expireSyncpoints now).expireIfDue now) :=
    ((expireSyncpoints_adds s now).trans (expireIfDue_adds _ now)).fewer
  have hslots := (expireSyncpoints_sameSlots s now).trans (expireIfDue_sameSlots _ now)
  exact solveAllReady_hygiene env clk (h.of_fewer hf fun i hi => hslots.isAlive i ▸ hi)
    (t.of_fewer hf) _

/-! ## Departures and arrivals -/

theorem Hygiene.of_frees {s s' : State F} {g : Provenance} {i : ℕ} (h : Hygiene s g)
    (hf : Frees s s' i) : Hygiene s' g := by
  refine h.of_fewer hf.adds.fewer fun j hj => ?_
  rw [hf.isAlive] at hj
  split at hj
  · cases hj
  · exact hj

/-- The clock of a slot just issued dates from its arrival. -/
theorem addReceiver_hygiene {s : State F} {g : Provenance} (wf : WellFormed s) (h : Hygiene s g)
    (t : Traced s g) {now : Instant} {heard : ℕ → F} {info : ReceiverInfo F} {r : RxRef}
    (hr : (s.addReceiver now heard info).2 = some r) :
    Hygiene (s.addReceiver now heard info).1 (g.restart r.idx) ∧
      Traced (s.addReceiver now heard info).1 (g.restart r.idx).tick := by
  obtain ⟨s0, user, h0, wf0, -, hi, -⟩ := addReceiver_issues wf hr
  have h1 : Hygiene s0 g ∧ Traced s0 g := by
    rcases h0 with rfl | ⟨i, -, -, hf⟩
    · exact ⟨h, t⟩
    · exact ⟨h.of_frees hf, t.of_fewer hf.adds.fewer⟩
  refine ⟨?_, (h1.2.of_fewer hi.adds.fewer).restart_tick r.idx⟩
  refine h1.1.restart hi.adds.fewer (fun j hj ha => ?_) (bare_of_not_mentions (hi.fresh wf0).1)
  rwa [hi.isAlive wf0, if_neg hj] at ha

/-! ## A clock reset -/

omit [F64 F] in
/-- After its clock reset a slot holds its offset at most. -/
theorem clockReset_bare {s : State F} {r : RxRef} (hl : s.live r = true)
    (ho : s.stampOffset.lookup r.idx = none) : Bare (s.clockReset r) r.idx := by
  have hs : s.clockReset r = (s.dropPairs r.idx).forgetPending r.idx := by
    unfold State.clockReset
    rw [hl]
    rfl
  rw [hs]
  constructor
  · rintro ⟨a, b⟩ hk
    rw [← Bool.not_eq_true, hasPair_iff]
    rintro ⟨p, hp⟩
    simp only [State.forgetPending, State.dropPairs, Finmap.lookup_retain,
      Option.filter_eq_some_iff, Bool.and_eq_true, decide_eq_true_eq] at hp
    rcases hk with hk | hk
    · exact hp.2.1 hk
    · exact hp.2.2 hk
  · intro key
    rw [← Bool.not_eq_true, hasReporter_iff]
    rintro ⟨sp, h1, e, he, hi⟩
    simp only [State.forgetPending, Finmap.lookup_mapVals, Option.map_eq_some_iff] at h1
    obtain ⟨sp', -, rfl⟩ := h1
    exact absurd hi (of_decide_eq_true (List.mem_filter.1 he).2)
  · intro key
    rw [← Bool.not_eq_true, hasEntry_iff]
    rintro ⟨g, h1, e, he, hi⟩
    simp only [State.forgetPending, Finmap.lookup_mapVals, Option.map_eq_some_iff] at h1
    obtain ⟨g', -, rfl⟩ := h1
    exact absurd hi (of_decide_eq_true (List.mem_filter.1 he).2)
  · show (s.stampOffset.lookup r.idx).isSome = false
    rw [ho]
    rfl

omit [F64 F] in
theorem clockReset_stampOffset (s : State F) (r : RxRef) :
    (s.clockReset r).stampOffset = s.stampOffset := by
  unfold State.clockReset
  split
  · rfl
  · rfl

omit [F64 F] in
/-- A clock reset keeps hygiene exactly when it finds no offset of its slot. -/
theorem clockReset_hygiene_iff {s : State F} {g : Provenance} (h : Hygiene s g)
    (t : Traced s g) {r : RxRef} (hl : s.live r = true) :
    Hygiene (s.clockReset r) (g.restart r.idx) ↔ s.stampOffset.lookup r.idx = none := by
  have hslots := clockReset_sameSlots s r
  constructor
  · intro h'
    by_contra hne
    have hheld : s.hasOffset r.idx = true := Option.isSome_iff_ne_none.2 hne
    obtain ⟨n, hn, hmem⟩ := t.offset_own r.idx hheld
    have hheld' : (s.clockReset r).hasOffset r.idx = true := by
      unfold hasOffset
      rw [clockReset_stampOffset]
      exact hheld
    have halive : (s.clockReset r).isAlive r.idx = true := by
      rw [hslots.isAlive]
      exact ((live_iff s r).1 hl).2.1
    have h1 : (g.restart r.idx).epoch r.idx < n := h'.offset r.idx n halive hheld' hmem
    have h2 : (g.restart r.idx).epoch r.idx = g.next := if_pos rfl
    omega
  · intro ho
    exact h.restart (clockReset_adds s r).fewer (fun j _ ha => hslots.isAlive j ▸ ha)
      (clockReset_bare hl ho)

/-! ## Every step, every run -/

omit [F64 F] in
theorem tick_hygiene_iff {s : State F} {g : Provenance} : Hygiene s g.tick ↔ Hygiene s g :=
  ⟨fun h => ⟨h.pair, h.reporter, h.entry, h.offset⟩, Hygiene.tick⟩

/-- What every step but a clock reset keeps. -/
theorem step_hygiene (env : Env F) {s : State F} {g : Provenance} (wf : WellFormed s)
    (h : Hygiene s g) (t : Traced s g) {e : Shard.Event F}
    (hne : ∀ now heard r, e = .msg now heard (.clockReset r) → s.live r = false) :
    Hygiene (Shard.step env s e) (g.handle env s e) ∧
      Traced (Shard.step env s e) (g.handle env s e).tick := by
  cases e with
  | sweep now window rank clk =>
    exact (sweep_hygiene env h t now window rank clk).imp id Traced.tick
  | msg now heard m =>
    cases m with
    | addReceiver info =>
      unfold Provenance.handle
      simp only
      cases hr : (s.addReceiver now heard info).2 with
      | none =>
        have hs : Shard.step env s (.msg now heard (.addReceiver info)) = s := addReceiver_none hr
        rw [hs]
        exact ⟨h, t.tick⟩
      | some r => exact addReceiver_hygiene wf h t hr
    | removeReceiver r =>
      show Hygiene (s.removeReceiver r) g ∧ Traced (s.removeReceiver r) g.tick
      cases hl : s.live r with
      | false =>
        rw [removeReceiver_of_not_live s hl]
        exact ⟨h, t.tick⟩
      | true =>
        have hf := removeReceiver_frees s hl
        exact ⟨h.of_frees hf, (t.of_fewer hf.adds.fewer).tick⟩
    | sync r et ot em om at' =>
      exact (onSync_hygiene env h t now r et ot em om at').imp id Traced.tick
    | mlat r tc m at' => exact (onMlat_hygiene env h t now r tc m at').imp id Traced.tick
    | clockReset r =>
      have hl := hne now heard r rfl
      have hs : Shard.step env s (.msg now heard (.clockReset r)) = s := by
        show s.clockReset r = s
        unfold State.clockReset
        rw [hl]
        rfl
      have hg : g.handle env s (.msg now heard (.clockReset r)) = g := by
        unfold Provenance.handle
        simp only [hl, Bool.not_false, if_true]
      rw [hs, hg]
      exact ⟨h, t.tick⟩
    | receiverStats r =>
      have hf := (@receiverStats_adds F _ (fun _ => False) s r).fewer
      exact ⟨h.of_fewer hf fun i hi => (receiverStats_sameSlots s r).isAlive i ▸ hi,
        (t.of_fewer hf).tick⟩
    | stats => exact ⟨h, t.tick⟩
    | syncJson => exact ⟨h, t.tick⟩
    | stateJson =>
      have hf := (@stateJson_adds F _ (fun _ => False) s now).fewer
      exact ⟨h.of_fewer hf fun i hi => (stateJson_sameSlots s now).isAlive i ▸ hi,
        (t.of_fewer hf).tick⟩

theorem step_traced (env : Env F) {s : State F} {g : Provenance} (wf : WellFormed s)
    (h : Hygiene s g) (t : Traced s g) (e : Shard.Event F) :
    Traced (Shard.step env s e) (g.handle env s e).tick := by
  by_cases he : ∃ now heard r, e = .msg now heard (.clockReset r) ∧ s.live r = true
  · obtain ⟨now, heard, r, rfl, hl⟩ := he
    have hg : g.handle env s (.msg now heard (.clockReset r)) = g.restart r.idx := by
      unfold Provenance.handle
      simp only [hl, Bool.not_true, Bool.false_eq_true, if_false]
    rw [hg]
    exact (t.of_fewer (clockReset_adds s r).fewer).restart_tick r.idx
  · refine (step_hygiene env wf h t fun now heard r hr => ?_).2
    exact Bool.eq_false_of_not_eq_true fun hl => he ⟨now, heard, r, hr, hl⟩

theorem step_hygiene_iff (env : Env F) {s : State F} {g : Provenance} (wf : WellFormed s)
    (h : Hygiene s g) (t : Traced s g) (e : Shard.Event F) :
    Hygiene (Shard.step env s e) (g.handle env s e).tick ↔ NoStaleOffset s e := by
  rw [tick_hygiene_iff]
  by_cases he : ∃ now heard r, e = .msg now heard (.clockReset r) ∧ s.live r = true
  · obtain ⟨now, heard, r, rfl, hl⟩ := he
    have hg : g.handle env s (.msg now heard (.clockReset r)) = g.restart r.idx := by
      unfold Provenance.handle
      simp only [hl, Bool.not_true, Bool.false_eq_true, if_false]
    rw [hg]
    refine (clockReset_hygiene_iff h t hl).trans ?_
    exact ⟨fun ho _ => ho, fun ho => ho hl⟩
  · have hno : ∀ now heard r, e = .msg now heard (.clockReset r) → s.live r = false :=
      fun now heard r hr => Bool.eq_false_of_not_eq_true fun hl => he ⟨now, heard, r, hr, hl⟩
    have h2 : NoStaleOffset s e := by
      cases e with
      | sweep => trivial
      | msg now heard m =>
        cases m with
        | clockReset r =>
          intro hl
          rw [hno now heard r rfl] at hl
          cases hl
        | _ => trivial
    exact ⟨fun _ => h2, fun _ => (step_hygiene env wf h t hno).1⟩

omit [F64 F] in
theorem boot_hygiene (c : Shard.Config F) : Hygiene (Shard.boot c) Provenance.init where
  pair _ _ _ hi := by cases hi
  reporter _ _ _ hi := by cases hi
  entry _ _ _ hi := by cases hi
  offset _ _ hi := by cases hi

omit [F64 F] in
theorem boot_traced (c : Shard.Config F) : Traced (Shard.boot c) Provenance.init where
  epoch _ := Nat.zero_lt_one
  pair _ _ ho := absurd ho (Finset.notMem_empty _)
  reporter _ _ _ ho := absurd ho (Finset.notMem_empty _)
  entry _ _ _ ho := absurd ho (Finset.notMem_empty _)
  entry_own _ _ hh := by cases hh
  offset_own _ hh := by cases hh

/-- The shard of an instrumented run is the shard of the run. -/
theorem provenance_run_fst (env : Env F) (c : Shard.Config F) (g : Provenance)
    (es : List (Shard.Event F)) :
    (Run.exec (Provenance.step env) (Shard.boot c, g) es).1 =
      Shard.run env (Shard.boot c) es :=
  @Run.exec_proj _ _ (Shard.step env) _ (Provenance.step env) Prod.fst (fun _ _ => rfl) _ es

/-- **Clock-domain hygiene**: what is held under live slots comes from messages of their present
    clocks throughout a run exactly when no clock reset of the run finds an offset of its slot. -/
theorem clock_hygiene_iff (env : Env F) (c : Shard.Config F) (es : List (Shard.Event F)) :
    (∀ n, let p := Run.exec (Provenance.step env) (Shard.boot c, Provenance.init) (es.take n)
      Hygiene p.1 p.2) ↔
      Run.Steps (Shard.step env) NoStaleOffset (Shard.boot c) es := by
  rw [← @Run.steps_proj _ _ (Shard.step env) _ (Provenance.step env) Prod.fst (fun _ _ => rfl)
    NoStaleOffset (Shard.boot c, Provenance.init) es]
  refine @Run.forall_take_iff_steps _ _ (Provenance.step env)
    (fun p => WellFormed p.1 ∧ Traced p.1 p.2) (fun p => Hygiene p.1 p.2) (fun _ => True)
    (fun p e => NoStaleOffset p.1 e) ?_ ?_ _ es ⟨boot_wellFormed c, boot_traced c⟩
    (boot_hygiene c) (fun _ _ => trivial)
  · rintro ⟨s, g⟩ e - ⟨wf, t⟩ h -
    exact ⟨step_wellFormed env s e wf, step_traced env wf h t e⟩
  · rintro ⟨s, g⟩ e - ⟨wf, t⟩ h
    exact step_hygiene_iff env wf h t e

/-- Three receivers train against slot 0, a group of the four is solved, and slot 0 resets its
    clock. A sync point takes fifteen reports, so the pair comes in two spellings. -/
def resetAfterSolve : List (Shard.Event ℚ) :=
  [Sample.arrives 1 "Zero" none, Sample.arrives 1 "One" none, Sample.arrives 1 "Two" none,
    Sample.arrives 1 "Three" none, Sample.hearsAt 0 1 Sample.evenFrame, Sample.hearsAt 0 1 Sample.evenFrame.toUpper] ++
  ([0, 10, 20, 30, 40].flatMap fun t =>
    [Sample.hearsAt 1 t Sample.evenFrame, Sample.hearsAt 2 t Sample.evenFrame, Sample.hearsAt 3 t Sample.evenFrame.toUpper]) ++
  ([0, 1, 2, 3].map fun rx => Sample.at' 11 11 (.mlat ⟨rx, 0⟩ 12000000 Sample.allCall 11)) ++
  [.sweep (Sample.seconds 13) (Sample.seconds 1) (fun _ => 0) (fun _ _ => Sample.seconds 13),
    Sample.at' 14 14 (.clockReset ⟨0, 0⟩)]

/-- The offset of slot 0 outlives the clock it was measured in: message 5, its first sync report,
    is older than the reset, event 27. -/
theorem reset_keeps_offset :
    let p := Run.exec (Provenance.step Sample.env) (Shard.boot Sample.config, Provenance.init)
      resetAfterSolve
    ¬ Hygiene p.1 p.2 := by
  intro p h
  have hp : p.1.isAlive 0 = true ∧ p.1.hasOffset 0 = true ∧ (0, 5) ∈ p.2.offset 0 ∧
      p.2.epoch 0 = 27 := by decide +kernel
  have h1 := h.offset 0 5 hp.1 hp.2.1 hp.2.2.1
  omega

end Mlatd
