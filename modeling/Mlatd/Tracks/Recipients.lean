/-
  Who gets the result of a fix (state.rs, recipients; the pending groups).

  A group holds slot indexes collected up to a window earlier. `HeardSince` says what they stand
  for in terms of the run: the slot's holder reported the exact message, and since then neither
  was the slot given up, nor its clock reset, nor the group taken out. `hasEntry_step` is the step
  that keeps the two the same; a sweep solves a group as it stood before the sweep, so the
  recipients of a fix are the live reporters in range (`results_to_reporters`).
-/
import Mlatd.ClockDomain.Hygiene
import Mlatd.Tracks.Publish

namespace Mlatd

variable {F : Type} [F64 F]

/-- Where a row puts its aircraft. -/
def OutRow.pos (row : OutRow F) : Geodetic F := ⟨row.lat, row.lon, 0.0⟩

/-- The frame is one that a shard groups. -/
def State.takesFrame (env : Env F) (s : State F) (m : String) : Bool :=
  ((env.hexDecode m).bind (State.mlatFrame s.mlatAdsb)).isSome

namespace Shard

/-- The slot and the text of the frame that an event reports, where the shard groups it. -/
def reported (env : Env F) (s : State F) : Event F → Option (ℕ × String)
  | .msg _ _ (.mlat r _ m _) =>
    if s.live r && s.takesFrame env m then some (r.idx, m) else none
  | .msg _ _ (.sync r _ _ em om _) =>
    if s.live r && s.mlatAdsb && s.takesFrame env em &&
        (State.decodeSync env em om).any fun d => (State.syncPositions (F := F) d.1 d.2).isSome then
      some (r.idx, em)
    else none
  | _ => none

/-- The event resets the clock of slot `i`. -/
def Resets (s : State F) (i : ℕ) : Event F → Prop
  | .msg _ _ (.clockReset r) => s.live r = true ∧ r.idx = i
  | _ => False

/-- The event takes the group of `key` out. -/
def Takes (s : State F) (key : String) : Event F → Prop
  | .sweep now window rank _ =>
    key ∈ ((s.expireSyncpoints now).expireIfDue now).readyGroups now window rank
  | _ => False

/-- The event makes a report of `key` by the holder of slot `i` void. -/
def Cuts (s : State F) (i : ℕ) (key : String) (e : Event F) : Prop :=
  Ends s (holder s i) e ∨ Resets s i e ∨ Takes s key e

end Shard

namespace State

/-! ## The entries of a group -/

omit [F64 F] in
theorem hasEntry_congr {s s' : State F} (h : s'.groups = s.groups) (key : String) (i : ℕ) :
    s'.hasEntry key i = s.hasEntry key i := by
  unfold hasEntry
  rw [h]

omit [F64 F] in
theorem forgetPending_hasEntry (s : State F) (rx : ℕ) {key : String} {i : ℕ} :
    (s.forgetPending rx).hasEntry key i = true ↔ s.hasEntry key i = true ∧ i ≠ rx := by
  rw [hasEntry_iff, hasEntry_iff]
  simp only [forgetPending, Finmap.lookup_mapVals, Option.map_eq_some_iff]
  constructor
  · rintro ⟨-, ⟨g, hg, rfl⟩, e, he, hi⟩
    obtain ⟨he, hne⟩ := List.mem_filter.1 he
    exact ⟨⟨g, hg, e, he, hi⟩, hi ▸ of_decide_eq_true hne⟩
  · rintro ⟨⟨g, hg, e, he, hi⟩, hne⟩
    exact ⟨_, ⟨g, hg, rfl⟩, e, List.mem_filter.2 ⟨he, decide_eq_true (hi ▸ hne)⟩, hi⟩

theorem WellFormed.hasEntry_alive {s : State F} (wf : WellFormed s) {key : String} {i : ℕ}
    (h : s.hasEntry key i = true) : s.isAlive i = true := by
  obtain ⟨g, hg, e, he, hi⟩ := hasEntry_iff.1 h
  exact wf.mentions i (.entry key g hg e he hi)

theorem removeReceiver_hasEntry (s : State F) {r : RxRef} (h : s.live r = true) {key : String}
    {i : ℕ} : (s.removeReceiver r).hasEntry key i = true ↔ s.hasEntry key i = true ∧ i ≠ r.idx := by
  rw [removeReceiver_of_live s h]
  exact forgetPending_hasEntry _ r.idx

theorem issue_groups (s : State F) (info : ReceiverInfo F) :
    (s.issue info).1.groups = s.groups := by
  unfold issue takeSlot
  cases s.freeSlots.getLast? with
  | none => rfl
  | some i => rfl

theorem onMlat_hasEntry (env : Env F) (s : State F) (now : Instant) (r : RxRef) (t : F)
    (m : String) (at' : F) {key : String} {i : ℕ} :
    (s.onMlat env now r t m at').hasEntry key i = true ↔
      s.hasEntry key i = true ∨
        (s.live r && s.takesFrame env m) = true ∧ key = m ∧ i = r.idx := by
  unfold onMlat takesFrame
  cases hl : s.live r with
  | false => simp
  | true =>
    cases hd : env.hexDecode m with
    | none => simp
    | some raw =>
      cases hf : mlatFrame s.mlatAdsb raw with
      | none => simp [hf]
      | some p =>
        obtain ⟨icao, alt⟩ := p
        simp only [Bool.not_true, Bool.false_eq_true, if_false, hf, Option.bind_some,
          Option.isSome_some, Bool.and_true, true_and]
        cases alt with
        | none => exact joinGroup_hasEntry
        | some a => exact joinGroup_hasEntry

theorem trainSync_groups (s : State F) (now : Instant) (rx : ℕ) (icao : Icao)
    (key : String × String) (te to' : F) :
    (s.trainSync now rx icao key te to').groups = s.groups := by
  simp only [trainSync]
  split
  · rfl
  · exact (foldl_trainPair_sameRest icao rx te to' _ _).groups

theorem onSync_hasEntry (env : Env F) (s : State F) (now : Instant) (r : RxRef) (et ot : F)
    (em om : String) (at' : F) {key : String} {i : ℕ} :
    (s.onSync env now r et ot em om at').hasEntry key i = true ↔
      s.hasEntry key i = true ∨
        (s.live r && s.mlatAdsb && s.takesFrame env em && (decodeSync env em om).any fun d =>
          (syncPositions (F := F) d.1 d.2).isSome) = true ∧ key = em ∧ i = r.idx := by
  unfold onSync
  cases hl : s.live r with
  | false => simp
  | true =>
    cases hd : decodeSync env em om with
    | none => simp
    | some d =>
      obtain ⟨de, do'⟩ := d
      simp only [Bool.not_true, Bool.false_eq_true, if_false, Option.any_some, Bool.true_and]
      cases hp : syncPositions (F := F) de do' with
      | none =>
        simp only [Option.isSome_none, Bool.and_false, Bool.false_eq_true, false_and, or_false]
        exact Eq.congr_left (hasEntry_congr rfl key i)
      | some q =>
        obtain ⟨pe, po⟩ := q
        simp only [Option.isSome_some, Bool.and_true]
        rw [hasEntry_congr (trainSync_groups _ _ _ _ _ _ _)]
        have h1 : ((s.noteSync r.idx de.icao at').notePosition de pe at').hasEntry key i =
            s.hasEntry key i := hasEntry_congr rfl key i
        have h2 : ((s.noteSync r.idx de.icao at').notePosition de pe at').takesFrame env em =
            s.takesFrame env em := rfl
        have h3 : ((s.noteSync r.idx de.icao at').notePosition de pe at').live r = true :=
          (((noteSync_sameSlots s r.idx de.icao at').trans
            (notePosition_sameSlots _ de pe at')).live r).trans hl
        by_cases hm : s.mlatAdsb = true
        · have hm' : ((s.noteSync r.idx de.icao at').notePosition de pe at').mlatAdsb = true := hm
          rw [if_pos hm', onMlat_hasEntry, h1, h2, h3, hm]
        · have hm' : ¬ ((s.noteSync r.idx de.icao at').notePosition de pe at').mlatAdsb = true := hm
          rw [if_neg hm', h1]
          simp [hm]

/-! ## What a sweep takes out -/

theorem solveReady_groups (env : Env F) (clk : String → ℕ → Instant) (s : State F)
    (key k : String) : (s.solveReady env clk key).1.groups.lookup k =
      if k = key then none else s.groups.lookup k := by
  cases hg : s.groups.lookup key with
  | none =>
    have h : (s.solveReady env clk key).1 = s := by
      unfold solveReady
      rw [hg]
    rw [h]
    split
    · next hk => rw [hk, hg]
    · rfl
  | some g =>
    rw [solveReady_some env clk hg, (solveGroup_solves env (s.takeGroup key) (clk key) g).groups]
    exact Finmap.lookup_erase_ite key k s.groups

theorem solveAllReady_groups (env : Env F) (clk : String → ℕ → Instant) (s : State F)
    (keys : List String) (k : String) : (solveAllReady env clk s keys).1.groups.lookup k =
      if k ∈ keys then none else s.groups.lookup k := by
  induction keys generalizing s with
  | nil => rfl
  | cons key keys ih =>
    have h : (solveAllReady env clk s (key :: keys)).1 =
        (solveAllReady env clk (s.solveReady env clk key).1 keys).1 := rfl
    rw [h, ih, solveReady_groups]
    by_cases hk : k ∈ keys
    · rw [if_pos hk, if_pos (List.mem_cons_of_mem key hk)]
    · rw [if_neg hk]
      by_cases hkey : k = key
      · rw [if_pos hkey, if_pos (hkey ▸ List.mem_cons_self)]
      · rw [if_neg hkey, if_neg (fun h => (List.mem_cons.1 h).elim hkey hk)]

theorem expired_groups (s : State F) (now : Instant) :
    ((s.expireSyncpoints now).expireIfDue now).groups = s.groups := by
  unfold expireIfDue
  split
  · rfl
  · rfl

end State

namespace Shard

open State

/-! ## One step -/

section
variable (env : Env F) {s : State F} (key : String) (i : ℕ)

/-- A slot has an entry in a group after the event when the event is its report, or when it had one
    and the event does not void it. -/
def EntryStep (s : State F) (e : Event F) : Prop :=
  (step env s e).hasEntry key i = true ↔
    reported env s e = some (i, key) ∨ s.hasEntry key i = true ∧ ¬ Cuts s i key e

/-- An event that reports nothing. -/
theorem entryStep_of_none {e : Event F} (hr : reported env s e = none)
    (h : (step env s e).hasEntry key i = true ↔ s.hasEntry key i = true ∧ ¬ Cuts s i key e) :
    EntryStep env key i s e := by
  unfold EntryStep
  rw [hr, h]
  simp

/-- An event that touches no group. -/
theorem entryStep_of_quiet {e : Event F} (hr : reported env s e = none)
    (hcut : ¬ Cuts s i key e) (hg : (step env s e).groups = s.groups) :
    EntryStep env key i s e := by
  apply entryStep_of_none env key i hr
  rw [hasEntry_congr hg]
  exact ⟨fun h => ⟨h, hcut⟩, fun h => h.1⟩

/-- A report. -/
theorem entryStep_of_report {e : Event F} {taken : Bool} {r : RxRef} {m : String}
    (hr : reported env s e = if taken then some (r.idx, m) else none) (hcut : ¬ Cuts s i key e)
    (h : (step env s e).hasEntry key i = true ↔
      s.hasEntry key i = true ∨ taken = true ∧ key = m ∧ i = r.idx) :
    EntryStep env key i s e := by
  unfold EntryStep
  rw [h, hr]
  constructor
  · rintro (h1 | ⟨rfl, rfl, rfl⟩)
    · exact Or.inr ⟨h1, hcut⟩
    · exact Or.inl rfl
  · rintro (h1 | ⟨h1, -⟩)
    · split at h1
      · next ht =>
        cases h1
        exact Or.inr ⟨ht, rfl, rfl⟩
      · cases h1
    · exact Or.inl h1

theorem entryStep_sweep (now : Instant) (window : ℕ) (rank : String → ℕ)
    (clk : String → ℕ → Instant) : EntryStep env key i s (.sweep now window rank clk) := by
  apply entryStep_of_none env key i rfl
  have hg : (step env s (.sweep now window rank clk)).groups.lookup key =
      if key ∈ ((s.expireSyncpoints now).expireIfDue now).readyGroups now window rank then none
      else s.groups.lookup key := by
    have h := solveAllReady_groups env clk ((s.expireSyncpoints now).expireIfDue now)
      (((s.expireSyncpoints now).expireIfDue now).readyGroups now window rank) key
    rw [expired_groups] at h
    exact h
  have hcut : Cuts s i key (.sweep now window rank clk) ↔
      key ∈ ((s.expireSyncpoints now).expireIfDue now).readyGroups now window rank :=
    ⟨fun h => h.elim False.elim fun h => h.elim False.elim id, fun h => Or.inr (Or.inr h)⟩
  unfold hasEntry
  rw [hg, hcut]
  split
  · next hk => simp [hk]
  · next hk => simp [hk]

theorem entryStep_clockReset (now : Instant) (heard : ℕ → F) (r : RxRef) :
    EntryStep env key i s (.msg now heard (.clockReset r)) := by
  apply entryStep_of_none env key i rfl
  have hstep : step env s (.msg now heard (.clockReset r)) = s.clockReset r := rfl
  have hcut : Cuts s i key (.msg now heard (.clockReset r)) ↔ s.live r = true ∧ r.idx = i :=
    ⟨fun h => h.elim False.elim fun h => h.elim id False.elim, fun h => Or.inr (Or.inl h)⟩
  rw [hstep, hcut]
  unfold clockReset
  cases hl : s.live r with
  | false => simp
  | true =>
    simp only [Bool.not_true, Bool.false_eq_true, if_false, true_and]
    have h : (s.dropPairs r.idx).hasEntry key i = s.hasEntry key i := hasEntry_congr rfl key i
    rw [forgetPending_hasEntry, h, ne_comm]

/-- A slot with an entry is held by the handle that is removed, or keeps its entry. -/
theorem entryStep_removeReceiver (wf : WellFormed s) (now : Instant) (heard : ℕ → F) (r : RxRef) :
    EntryStep env key i s (.msg now heard (.removeReceiver r)) := by
  apply entryStep_of_none env key i rfl
  have hstep : step env s (.msg now heard (.removeReceiver r)) = s.removeReceiver r := rfl
  have hcut : Cuts s i key (.msg now heard (.removeReceiver r)) ↔ r = holder s i :=
    ⟨fun h => h.elim id fun h => h.elim False.elim False.elim, Or.inl⟩
  rw [hstep, hcut]
  cases hl : s.live r with
  | false =>
    rw [removeReceiver_of_not_live s hl]
    refine ⟨fun h => ⟨h, ?_⟩, fun h => h.1⟩
    rintro rfl
    have ha := wf.hasEntry_alive h
    rw [(live_iff s (holder s i)).2 ⟨wf.lt ha, ha, rfl⟩] at hl
    cases hl
  | true =>
    rw [removeReceiver_hasEntry s hl]
    have hgen := ((live_iff s r).1 hl).2.2
    have hr : r = holder s i ↔ i = r.idx := by
      constructor
      · intro h
        rw [h]
        rfl
      · rintro rfl
        unfold holder
        rw [hgen]
    rw [hr]

theorem entryStep_addReceiver (wf : WellFormed s) (now : Instant) (heard : ℕ → F)
    (info : ReceiverInfo F) : EntryStep env key i s (.msg now heard (.addReceiver info)) := by
  apply entryStep_of_none env key i rfl
  have hstep : step env s (.msg now heard (.addReceiver info)) =
    (s.addReceiver now heard info).1 := rfl
  have hcut : Cuts s i key (.msg now heard (.addReceiver info)) ↔
      s.replaced now heard info = some i :=
    ⟨fun h => h.elim id fun h => h.elim False.elim False.elim, Or.inl⟩
  rw [hstep, hcut]
  rcases addReceiver_cases s now heard info with
    ⟨hid, h1⟩ | ⟨user, ⟨hid, hu, h1⟩ | ⟨j, hid, hu, h1⟩⟩
  · rw [h1, replaced_of_identify hid]
    simp
  · rw [h1, replaced_of_identify hid, hasEntry_congr (issue_groups s _)]
    simp
  · have ha := ((wf.byUser user j).1 hu).1
    have hl : s.live { idx := j, gen := s.gen j } = true :=
      (live_iff s _).2 ⟨wf.lt ha, ha, rfl⟩
    rw [h1, replaced_of_identify hid, hasEntry_congr (issue_groups (s.evict j) _)]
    unfold State.evict
    have hj : (some (some j, user)).bind Prod.fst = some i ↔ i = j :=
      ⟨fun h => (Option.some.inj h).symm, fun h => congrArg some h.symm⟩
    rw [removeReceiver_hasEntry s hl, hj]

theorem entryStep (wf : WellFormed s) (e : Event F) : EntryStep env key i s e := by
  cases e with
  | sweep now window rank clk => exact entryStep_sweep env key i now window rank clk
  | msg now heard m =>
    have hno : ¬ (False ∨ False ∨ False) := by simp
    cases m with
    | addReceiver info => exact entryStep_addReceiver env key i wf now heard info
    | removeReceiver r => exact entryStep_removeReceiver env key i wf now heard r
    | clockReset r => exact entryStep_clockReset env key i now heard r
    | mlat r t m at' =>
      exact entryStep_of_report env key i rfl hno (onMlat_hasEntry env s now r t m at')
    | sync r et ot em om at' =>
      exact entryStep_of_report env key i rfl hno (onSync_hasEntry env s now r et ot em om at')
    | receiverStats r =>
      refine entryStep_of_quiet env key i rfl hno ?_
      have h : step env s (.msg now heard (.receiverStats r)) = (s.receiverStats r).1 := rfl
      rw [h]
      unfold State.receiverStats
      split
      · rfl
      · rfl
    | stats | syncJson | stateJson => exact entryStep_of_quiet env key i rfl hno rfl

end

/-! ## Runs -/

section
variable (env : Env F) (c : Config F) (es : List (Event F))

/-- The holder of slot `i` reported `key` before event `n`, and nothing voided the report since. -/
def HeardSince (n i : ℕ) (key : String) : Prop :=
  ∃ m < n, ∃ e, es[m]? = some e ∧ reported env (stateAt env c es m) e = some (i, key) ∧
    ∀ l e', m < l → l < n → es[l]? = some e' → ¬ Cuts (stateAt env c es l) i key e'

variable {env c es}

theorem heardSince_succ {n i : ℕ} {key : String} {e : Event F} (he : es[n]? = some e) :
    HeardSince env c es (n + 1) i key ↔
      reported env (stateAt env c es n) e = some (i, key) ∨
        HeardSince env c es n i key ∧ ¬ Cuts (stateAt env c es n) i key e := by
  constructor
  · rintro ⟨m, hm, e', he', hr, hno⟩
    by_cases hmn : m = n
    · rw [hmn, he] at he'
      cases he'
      exact Or.inl (hmn ▸ hr)
    · have hlt : m < n := by omega
      exact Or.inr ⟨⟨m, hlt, e', he', hr, fun l e'' h1 h2 => hno l e'' h1 (by omega)⟩,
        hno n e hlt (Nat.lt_succ_self n) he⟩
  · rintro (hr | ⟨⟨m, hm, e', he', hr, hno⟩, hcut⟩)
    · exact ⟨n, Nat.lt_succ_self n, e, he, hr, fun l _ h1 h2 => absurd h2 (by omega)⟩
    · refine ⟨m, by omega, e', he', hr, fun l e'' h1 h2 h3 => ?_⟩
      by_cases hl : l = n
      · rw [hl, he] at h3
        cases h3
        exact hl ▸ hcut
      · exact hno l e'' h1 (by omega) h3

theorem stateAt_succ {n : ℕ} {e : Event F} (he : es[n]? = some e) :
    stateAt env c es (n + 1) = step env (stateAt env c es n) e := by
  obtain ⟨hn, rfl⟩ := List.getElem?_eq_some_iff.1 he
  exact Run.exec_take_succ (boot c) es n hn

/-- A pending group's entries are the reports of its message that still stand. -/
theorem hasEntry_iff_heardSince {n : ℕ} (hn : n ≤ es.length) (i : ℕ) (key : String) :
    (stateAt env c es n).hasEntry key i = true ↔ HeardSince env c es n i key := by
  induction n with
  | zero =>
    constructor
    · intro h
      cases h
    · rintro ⟨m, hm, -⟩
      exact absurd hm (Nat.not_lt_zero m)
  | succ n ih =>
    have he : es[n]? = some es[n] := List.getElem?_eq_getElem hn
    rw [heardSince_succ he, ← ih (by omega), stateAt_succ he]
    exact entryStep env key i (stateAt_wellFormed n) es[n]

end

end Shard

/-! ## The recipients of a fix -/

omit [F64 F] in
theorem Group.members_nodup (g : Group F) : g.members.Nodup := by
  unfold Group.members
  have h : ∀ (es : List (ℕ × F × F)) (ms : List ℕ), ms.Nodup →
      (es.foldl (fun ms e => if ms.contains e.1 then ms else ms ++ [e.1]) ms).Nodup := by
    intro es
    induction es with
    | nil => exact fun _ h => h
    | cons e es ih =>
      intro ms hms
      apply ih
      simp only
      split
      · exact hms
      · next hne =>
        have hne : e.1 ∉ ms := by simpa using hne
        rw [← List.concat_eq_append, List.nodup_concat]
        exact ⟨hne, hms⟩
  exact h g.entries [] List.nodup_nil

namespace State

theorem SameSlots.recipients {s s' : State F} (h : SameSlots s s') (ms : List ℕ)
    (p : Geodetic F) : s'.recipients ms p = s.recipients ms p := by
  unfold State.recipients State.isAlive State.receiver
  rw [h.alive, h.receivers]

theorem mem_recipients {s : State F} {ms : List ℕ} {p : Geodetic F} {uid : ℕ} :
    uid ∈ s.recipients ms p ↔ ∃ i ∈ ms, s.isAlive i = true ∧ (s.receiver i).uid = uid ∧
      (s.receiver i).geo.haversineM p ≤ resultRangeM := by
  unfold State.recipients
  simp only [List.mem_map, List.mem_filter, Bool.and_eq_true, decide_eq_true_eq]
  constructor
  · rintro ⟨i, ⟨hi, ha, hd⟩, hu⟩
    exact ⟨i, hi, ha, hu, hd⟩
  · rintro ⟨i, hi, ha, hu, hd⟩
    exact ⟨i, ⟨hi, ha, hd⟩, hu⟩

/-- Live receivers are of different connections. -/
def UniqueUids (s : State F) : Prop :=
  ∀ i j, s.isAlive i = true → s.isAlive j = true → (s.receiver i).uid = (s.receiver j).uid → i = j

theorem UniqueUids.recipients_nodup {s : State F} (h : UniqueUids s) {ms : List ℕ}
    (hms : ms.Nodup) (p : Geodetic F) : (s.recipients ms p).Nodup := by
  unfold State.recipients
  refine (hms.filter _).map_on ?_
  intro i hi j hj hij
  have hi := (List.mem_filter.1 hi).2
  have hj := (List.mem_filter.1 hj).2
  rw [Bool.and_eq_true] at hi hj
  exact h i j hi.1 hj.1 hij

end State

namespace Turn

theorem mem_outs {env : Env F} {s : State F} {ts : List (Turn F)} {o : OutMsg F}
    (h : o ∈ outs env s ts) :
    ∃ pre t post, ts = pre ++ t :: post ∧ o ∈ t.out env (Run.exec (Turn.step env) s pre) := by
  induction ts generalizing s with
  | nil => cases h
  | cons t ts ih =>
    rcases List.mem_append.1 h with h1 | h1
    · exact ⟨[], t, ts, rfl, h1⟩
    · obtain ⟨pre, t', post, rfl, h2⟩ := ih h1
      exact ⟨t :: pre, t', post, rfl, h2⟩

/-- A turn of the solve of a group. -/
def OfGroup (g : Group F) (t : Turn F) : Prop :=
  (∃ key, t = .take key) ∨ ∃ now localRef cluster, t = .solve now g localRef cluster

theorem OfGroup.sameSlots (env : Env F) {g : Group F} {t : Turn F} (h : OfGroup g t)
    (s : State F) : State.SameSlots s (t.step env s) := by
  rcases h with ⟨key, rfl⟩ | ⟨now, localRef, cluster, rfl⟩
  · exact State.takeGroup_sameSlots s key
  · exact (State.solveCluster_solves localRef s env now g cluster).toSameSlots

theorem exec_sameSlots (env : Env F) {g : Group F} (ts : List (Turn F))
    (h : ∀ t ∈ ts, OfGroup g t) (s : State F) :
    State.SameSlots s (Run.exec (Turn.step env) s ts) := by
  induction ts generalizing s with
  | nil => exact State.SameSlots.refl s
  | cons t ts ih =>
    exact ((h t List.mem_cons_self).sameSlots env s).trans
      (ih (fun t' ht => h t' (List.mem_cons_of_mem t ht)) _)

end Turn

namespace Shard

open State

omit [F64 F] in
theorem clusterTurns_ofGroup (clk : ℕ → Instant) (g : Group F) (localRef k : ℕ)
    (cs : List (List (Arrival F))) : ∀ t ∈ clusterTurns clk g localRef k cs, Turn.OfGroup g t := by
  induction cs generalizing k with
  | nil => nofun
  | cons c cs ih =>
    intro t ht
    rcases List.mem_cons.1 ht with rfl | ht
    · exact Or.inr ⟨_, _, _, rfl⟩
    · exact ih (k + 1) t ht

theorem readyTurns_ofGroup {s : State F} (clk : String → ℕ → Instant) {key : String}
    {g : Group F} (hg : s.groups.lookup key = some g) :
    ∀ t ∈ readyTurns s clk key, Turn.OfGroup g t := by
  unfold readyTurns
  rw [hg]
  intro t ht
  rcases List.mem_cons.1 ht with rfl | ht
  · exact Or.inl ⟨key, rfl⟩
  · unfold groupTurns at ht
    split at ht
    · cases ht
    · exact clusterTurns_ofGroup _ g _ _ _ t ht

/-- A fix emitted for a group goes to the group's live members in range of it. -/
theorem fix_of_solveReady {env : Env F} {clk : String → ℕ → Instant} {s : State F} {key : String}
    {row : OutRow F} (h : .fix row ∈ (s.solveReady env clk key).2) :
    ∃ g, s.groups.lookup key = some g ∧ row.icao = g.icao ∧
      row.published.recipients = s.recipients g.members row.pos := by
  cases hg : s.groups.lookup key with
  | none =>
    unfold State.solveReady at h
    rw [hg] at h
    cases h
  | some g =>
    have hspec := (Prod.ext_iff.1 (readyTurns_spec env clk key s)).2
    simp only at hspec
    rw [← hspec] at h
    obtain ⟨pre, t, post, hts, ho⟩ := Turn.mem_outs h
    have hall := readyTurns_ofGroup clk hg
    rw [hts] at hall
    have ht : Turn.OfGroup g t := hall t (List.mem_append_right _ List.mem_cons_self)
    have hslots : SameSlots s (t.step env (Run.exec (Turn.step env) s pre)) :=
      (Turn.exec_sameSlots env pre (fun u hu => hall u (List.mem_append_left _ hu)) s).trans
        (ht.sameSlots env _)
    obtain ⟨a, sol, smoothed, hp, rfl⟩ := Turn.published_of_mem_out ho
    obtain ⟨now, g', localRef, cluster, ht', ha, -, -⟩ := Turn.published_eq_some hp
    obtain ⟨made, -, -⟩ := made_of_attempted ha
    have hgg : g' = g := by
      rcases ht with ⟨key', h1⟩ | ⟨_, _, _, h1⟩
      · rw [ht'] at h1
        cases h1
      · rw [ht'] at h1
        cases h1
        rfl
    refine ⟨g, rfl, ?_, ?_⟩
    · rw [← hgg]
      exact made.icao
    · rw [← hslots.recipients, ← hgg, ← made.members]
      rfl

theorem mem_solveAllReady {env : Env F} {clk : String → ℕ → Instant} {s : State F}
    {keys : List String} {o : OutMsg F} (h : o ∈ (s.solveAllReady env clk keys).2) :
    ∃ pre key post, keys = pre ++ key :: post ∧
      o ∈ ((s.solveAllReady env clk pre).1.solveReady env clk key).2 := by
  induction keys generalizing s with
  | nil => cases h
  | cons key keys ih =>
    rcases List.mem_append.1 h with h1 | h1
    · exact ⟨[], key, keys, rfl, h1⟩
    · obtain ⟨pre, key', post, rfl, h2⟩ := ih h1
      exact ⟨key :: pre, key', post, rfl, h2⟩

/-- The row leaves while the event solves the group of `key`. -/
def EmittedFor (env : Env F) (s : State F) (e : Event F) (key : String) (row : OutRow F) : Prop :=
  ∃ now window rank clk pre post, e = .sweep now window rank clk ∧
    ((s.expireSyncpoints now).expireIfDue now).readyGroups now window rank = pre ++ key :: post ∧
    .fix row ∈ (((((s.expireSyncpoints now).expireIfDue now).solveAllReady env clk
      pre).1).solveReady env clk key).2

/-- Every fix leaves for the group of some key. -/
theorem exists_emittedFor {env : Env F} {s : State F} {e : Event F} {row : OutRow F}
    (h : .fix row ∈ emits env s e) : ∃ key, EmittedFor env s e key row := by
  cases e with
  | msg now heard m => cases h
  | sweep now window rank clk =>
    obtain ⟨pre, key, post, h1, h2⟩ := mem_solveAllReady h
    exact ⟨key, now, window, rank, clk, pre, post, rfl, h1, h2⟩

/-- A fix goes to the live members, in range of it, of its group as it was before the event. -/
theorem fix_of_emittedFor {env : Env F} {s : State F} {e : Event F} {key : String}
    {row : OutRow F} (h : EmittedFor env s e key row) :
    ∃ g, s.groups.lookup key = some g ∧ row.icao = g.icao ∧
      row.published.recipients = s.recipients g.members row.pos := by
  obtain ⟨now, window, rank, clk, pre, post, -, -, hrow⟩ := h
  obtain ⟨g, hg, hicao, hr⟩ := fix_of_solveReady hrow
  have hslots : SameSlots s
      (((s.expireSyncpoints now).expireIfDue now).solveAllReady env clk pre).1 :=
    ((expireSyncpoints_sameSlots s now).trans (expireIfDue_sameSlots _ now)).trans
      (solveAllReady_frame env clk _ pre).1
  rw [solveAllReady_groups, expired_groups] at hg
  split at hg
  · cases hg
  · exact ⟨g, hg, hicao, hr.trans (hslots.recipients _ _)⟩

/-! ## Connection uids -/

/-- A newcomer's uid is no live receiver's. -/
def FreshUid (s : State F) : Event F → Prop
  | .msg _ _ (.addReceiver info) => ∀ i, s.isAlive i = true → (s.receiver i).uid ≠ info.uid
  | _ => True

theorem uniqueUids_of_sameSlots {s s' : State F} (h : UniqueUids s) (hs : SameSlots s s') :
    UniqueUids s' := by
  intro i j hi hj
  unfold State.receiver
  rw [hs.isAlive] at hi hj
  rw [hs.receivers]
  exact h i j hi hj

theorem uniqueUids_of_frees {s s' : State F} {k : ℕ} (h : UniqueUids s) (hf : Frees s s' k) :
    UniqueUids s' ∧ ∀ i, s'.isAlive i = true → s.isAlive i = true := by
  have hsub : ∀ i, s'.isAlive i = true → s.isAlive i = true := by
    intro i hi
    rw [hf.isAlive] at hi
    split at hi
    · cases hi
    · exact hi
  refine ⟨fun i j hi hj => ?_, hsub⟩
  rw [hf.receiver, hf.receiver]
  exact h i j (hsub i hi) (hsub j hj)

theorem uniqueUids_of_issues {s s' : State F} {k : ℕ} {info : ReceiverInfo F} (h : UniqueUids s)
    (wf : WellFormed s) (hi : Issues s s' k info)
    (hfresh : ∀ i, s.isAlive i = true → (s.receiver i).uid ≠ info.uid) : UniqueUids s' := by
  intro i j ha hb
  rw [hi.isAlive wf] at ha hb
  rw [hi.receiver wf, hi.receiver wf]
  by_cases hik : i = k
  · by_cases hjk : j = k
    · exact fun _ => hik.trans hjk.symm
    · rw [if_pos hik, if_neg hjk]
      rw [if_neg hjk] at hb
      exact fun hu => absurd hu.symm (hfresh j hb)
  · rw [if_neg hik] at ha ⊢
    by_cases hjk : j = k
    · rw [if_pos hjk]
      exact fun hu => absurd hu (hfresh i ha)
    · rw [if_neg hjk] at hb ⊢
      exact h i j ha hb

theorem step_uniqueUids (env : Env F) {s : State F} (wf : WellFormed s) (h : UniqueUids s)
    (e : Event F) (hfresh : FreshUid s e) : UniqueUids (step env s e) := by
  by_cases hq : e.isQuiet = true
  · exact uniqueUids_of_sameSlots h (step_sameSlots env s hq)
  · cases e with
    | sweep now window rank clk => exact absurd rfl hq
    | msg now heard m =>
      cases m with
      | removeReceiver r =>
        have hstep : step env s (.msg now heard (.removeReceiver r)) = s.removeReceiver r := rfl
        rw [hstep]
        cases hl : s.live r with
        | false =>
          rw [removeReceiver_of_not_live s hl]
          exact h
        | true => exact (uniqueUids_of_frees h (removeReceiver_frees s hl)).1
      | addReceiver info =>
        have hstep : step env s (.msg now heard (.addReceiver info)) =
          (s.addReceiver now heard info).1 := rfl
        rw [hstep]
        rcases addReceiver_cases s now heard info with
          ⟨-, h1⟩ | ⟨user, ⟨-, hu, h1⟩ | ⟨j, -, hu, h1⟩⟩
        · rw [h1]
          exact h
        · rw [h1]
          exact uniqueUids_of_issues h wf (issue_issues s _) hfresh
        · rw [h1]
          have hf := evict_frees wf ((wf.byUser user j).1 hu).1
          obtain ⟨h2, hsub⟩ := uniqueUids_of_frees h hf
          refine uniqueUids_of_issues h2 (hf.wellFormed wf) (issue_issues _ _) fun i hi => ?_
          rw [hf.receiver]
          exact hfresh i (hsub i hi)
      | _ => exact absurd rfl hq

theorem stateAt_uniqueUids {env : Env F} {c : Config F} {es : List (Event F)}
    (h : Run.Steps (step env) FreshUid (boot c) es) (n : ℕ) :
    UniqueUids (stateAt env c es n) := by
  have hpre : Run.Steps (step env) FreshUid (boot c) (es.take n) := by
    have h1 := h
    rw [← List.take_append_drop n es, Run.steps_append] at h1
    exact h1.1
  have hboot : UniqueUids (boot c : State F) := fun i _ hi => by cases hi
  exact (Run.invariant_of_steps (I := fun s => WellFormed s ∧ UniqueUids s)
    (fun s e hs he => ⟨step_wellFormed env s e hs.1, step_uniqueUids env hs.1 hs.2 e he⟩)
    ⟨boot_wellFormed c, hboot⟩ hpre).2

/-- The uid of a newcomer. -/
def Event.arrivalUid : Event F → Option ℕ
  | .msg _ _ (.addReceiver info) => some info.uid
  | _ => none

/-- A receiver live after a step was live before it, or is the newcomer. -/
theorem uid_of_step (env : Env F) {s : State F} (wf : WellFormed s) (e : Event F) {i : ℕ}
    (hi : (step env s e).isAlive i = true) :
    e.arrivalUid = some ((step env s e).receiver i).uid ∨
      ∃ j, s.isAlive j = true ∧ (s.receiver j).uid = ((step env s e).receiver i).uid := by
  have hissue : ∀ {s0 s' : State F} {k : ℕ} {info : ReceiverInfo F}, WellFormed s0 →
      Issues s0 s' k info → s'.isAlive i = true → (s'.receiver i).uid = info.uid ∨
        s0.isAlive i = true ∧ (s0.receiver i).uid = (s'.receiver i).uid := by
    intro s0 s' k info wf0 h ha
    rw [h.isAlive wf0] at ha
    rw [h.receiver wf0]
    by_cases hik : i = k
    · rw [if_pos hik]
      exact Or.inl rfl
    · rw [if_neg hik] at ha ⊢
      exact Or.inr ⟨ha, rfl⟩
  by_cases hq : e.isQuiet = true
  · have hs := step_sameSlots env s hq
    unfold State.receiver
    rw [hs.receivers]
    exact Or.inr ⟨i, hs.isAlive i ▸ hi, rfl⟩
  · cases e with
    | sweep now window rank clk => exact absurd rfl hq
    | msg now heard m =>
      cases m with
      | removeReceiver r =>
        have hstep : step env s (.msg now heard (.removeReceiver r)) = s.removeReceiver r := rfl
        rw [hstep] at hi ⊢
        cases hl : s.live r with
        | false =>
          rw [removeReceiver_of_not_live s hl] at hi ⊢
          exact Or.inr ⟨i, hi, rfl⟩
        | true =>
          have hf := removeReceiver_frees s hl
          rw [hf.receiver]
          rw [hf.isAlive] at hi
          split at hi
          · cases hi
          · exact Or.inr ⟨i, hi, rfl⟩
      | addReceiver info =>
        have hstep : step env s (.msg now heard (.addReceiver info)) =
          (s.addReceiver now heard info).1 := rfl
        rw [hstep] at hi ⊢
        rcases addReceiver_cases s now heard info with
          ⟨-, h1⟩ | ⟨user, ⟨-, hu, h1⟩ | ⟨j, -, hu, h1⟩⟩
        · rw [h1] at hi ⊢
          exact Or.inr ⟨i, hi, rfl⟩
        · rw [h1] at hi ⊢
          rcases hissue wf (issue_issues s _) hi with h2 | ⟨h2, h3⟩
          · exact Or.inl (congrArg some h2.symm)
          · exact Or.inr ⟨i, h2, h3⟩
        · have hf := evict_frees wf ((wf.byUser user j).1 hu).1
          rw [h1] at hi ⊢
          rcases hissue (hf.wellFormed wf) (issue_issues (s.evict j) _) hi with h2 | ⟨h2, h3⟩
          · exact Or.inl (congrArg some h2.symm)
          · rw [hf.receiver] at h3
            rw [hf.isAlive] at h2
            split at h2
            · cases h2
            · exact Or.inr ⟨i, h2, h3⟩
      | _ => exact absurd rfl hq

/-- Newcomers whose uids all differ are each fresh. -/
theorem steps_freshUid (env : Env F) {s : State F} (wf : WellFormed s) (es : List (Event F))
    (hlive : ∀ i, s.isAlive i = true → (s.receiver i).uid ∉ es.filterMap Event.arrivalUid)
    (hnodup : (es.filterMap Event.arrivalUid).Nodup) : Run.Steps (step env) FreshUid s es := by
  induction es generalizing s with
  | nil => trivial
  | cons e es ih =>
    have hsub : ∀ u, u ∈ es.filterMap Event.arrivalUid →
        u ∈ (e :: es).filterMap Event.arrivalUid := by
      intro u hu
      obtain ⟨e', he', hu⟩ := List.mem_filterMap.1 hu
      exact List.mem_filterMap.2 ⟨e', List.mem_cons_of_mem e he', hu⟩
    refine ⟨?_, ih (step_wellFormed env s e wf) (fun i hi hmem => ?_) ?_⟩
    · cases e with
      | sweep now window rank clk => trivial
      | msg now heard m =>
        cases m with
        | addReceiver info =>
          intro i hi hu
          exact hlive i hi (List.mem_filterMap.2 ⟨_, List.mem_cons_self, congrArg some hu.symm⟩)
        | _ => trivial
    · rcases uid_of_step env wf e hi with h | ⟨j, hj, h⟩
      · rw [List.filterMap_cons_some h] at hnodup
        exact (List.nodup_cons.1 hnodup).1 hmem
      · rw [← h] at hmem
        exact hlive j hj (hsub _ hmem)
    · cases h : e.arrivalUid with
      | none =>
        rw [List.filterMap_cons_none h] at hnodup
        exact hnodup
      | some u =>
        rw [List.filterMap_cons_some h] at hnodup
        exact (List.nodup_cons.1 hnodup).2

/-! ## Results reach the reporters -/

/-- The recipients of a row, emitted at event `n` for the group of `key`: each connection once, and
    exactly those of live receivers in range of the fix that reported `key` and whose report still
    stands. -/
structure Delivered (env : Env F) (c : Config F) (es : List (Event F)) (n : ℕ) (key : String)
    (row : OutRow F) : Prop where
  nodup : row.published.recipients.Nodup
  mem_iff : ∀ uid, uid ∈ row.published.recipients ↔
    ∃ i, (stateAt env c es n).isAlive i = true ∧ ((stateAt env c es n).receiver i).uid = uid ∧
      ((stateAt env c es n).receiver i).geo.haversineM row.pos ≤ resultRangeM ∧
      HeardSince env c es n i key

/-- Every fix that a run emits is emitted for the group of some message, and goes to exactly the
    live receivers in range that reported this message on their present connection, since their
    last clock reset and since the group was last taken out. -/
theorem results_to_reporters (env : Env F) (c : Config F) (es : List (Event F))
    (huid : Run.Steps (step env) FreshUid (boot c) es) (n : ℕ) (e : Event F)
    (he : es[n]? = some e) :
    (∀ row, .fix row ∈ emits env (stateAt env c es n) e →
      ∃ key, EmittedFor env (stateAt env c es n) e key row) ∧
    ∀ key row, EmittedFor env (stateAt env c es n) e key row → Delivered env c es n key row := by
  refine ⟨fun row hrow => exists_emittedFor hrow, fun key row hrow => ?_⟩
  obtain ⟨g, hg, -, hr⟩ := fix_of_emittedFor hrow
  have hn : n ≤ es.length := (List.getElem?_eq_some_iff.1 he).1.le
  have hmember : ∀ i, i ∈ g.members ↔ HeardSince env c es n i key := by
    intro i
    rw [← hasEntry_iff_heardSince hn, hasEntry_iff, mem_members]
    constructor
    · exact fun h => ⟨g, hg, h⟩
    · rintro ⟨g', hg', h⟩
      rw [hg] at hg'
      cases hg'
      exact h
  constructor
  · rw [hr]
    exact (stateAt_uniqueUids huid n).recipients_nodup g.members_nodup row.pos
  · intro uid
    rw [hr, mem_recipients]
    constructor
    · rintro ⟨i, hi, ha, hu, hd⟩
      exact ⟨i, ha, hu, hd, (hmember i).1 hi⟩
    · rintro ⟨i, ha, hu, hd, hh⟩
      exact ⟨i, (hmember i).2 hh, ha, hu, hd⟩

end Shard

/-! ## A group of five -/

namespace Sample

def isFix : OutMsg ℚ → Bool
  | .fix _ => true
  | .selfTruth _ => false

/-- The sweep, event 32, emits a fix. -/
theorem exists_fix :
    ∃ e row, fiveReport[32]? = some e ∧
      .fix row ∈ Shard.emits fitting (Shard.stateAt fitting config fiveReport 32) e := by
  have hfix : (fiveReport[32]?.any fun e =>
      (Shard.emits fitting (Shard.stateAt fitting config fiveReport 32) e).any isFix) = true := by
    decide +kernel
  obtain ⟨e, he, h1⟩ := (Option.any_eq_true _ _).1 hfix
  obtain ⟨o, ho, hofix⟩ := List.any_eq_true.1 h1
  cases o with
  | selfTruth line => cases hofix
  | fix row => exact ⟨e, row, he, ho⟩

end Sample

/-- The fix of the sweep is delivered. -/
theorem Shard.results_to_reporters_five :
    let s := stateAt Sample.fitting Sample.config Sample.fiveReport 32
    ∃ e key row, Sample.fiveReport[32]? = some e ∧ EmittedFor Sample.fitting s e key row ∧
      Delivered Sample.fitting Sample.config Sample.fiveReport 32 key row := by
  intro s
  have huid : Run.Steps (step Sample.fitting) FreshUid (boot Sample.config) Sample.fiveReport :=
    steps_freshUid Sample.fitting (State.boot_wellFormed Sample.config) _ (fun _ hi => by cases hi)
      (by decide)
  obtain ⟨e, row, he, hrow⟩ := Sample.exists_fix
  obtain ⟨hall, hdelivered⟩ := results_to_reporters Sample.fitting Sample.config Sample.fiveReport
    huid 32 e he
  obtain ⟨key, hkey⟩ := hall row hrow
  exact ⟨e, key, row, he, hkey, hdelivered key row hkey⟩

end Mlatd
