/-
  What becomes of a reported frame (state.rs, on_mlat, forget_pending, sweep).

  A shard holds the readings of one frame text in a group until a sweep gives the group to
  `solve_group`. `arrivals_accounted`: over every run a reading that came in for a text is solved,
  still pending, or forgotten with its slot's clock, in exactly one of the three and once; the
  solved and the pending ones are in the order they came in; and a sweep leaves no group whose
  window has closed.
-/
import Mlatd.Lib.Ledger
import Mlatd.Spelling.SameContent

namespace Mlatd

open Ledger

variable {F : Type} [F64 F]

namespace State

/-- The readings in the group of `key`. -/
def pending (s : State F) (key : String) : List (ℕ × F × F) :=
  ((s.groups.lookup key).map Group.entries).getD []

/-- The groups that `solveAllReady` gives to `solveGroup`, with their texts. -/
def groupsSolved (env : Env F) (clk : String → ℕ → Instant) :
    State F → List String → List (String × Group F)
  | _, [] => []
  | s, key :: keys =>
    ((s.groups.lookup key).map (Prod.mk key)).toList ++
      groupsSolved env clk (s.solveReady env clk key).1 keys

end State

namespace Shard

/-- The reading an event brings, and the text of its frame. -/
def brought (env : Env F) (s : State F) : Event F → Option (String × ℕ × F × F)
  | .msg _ _ (.mlat r t m at') =>
    if s.live r && s.takesFrame env m then
      some (m, r.idx, t / (s.receiver r.idx).freqHz, at')
    else none
  | .msg _ _ (.sync r et _ em om at') =>
    if s.reports env r em om && s.mlatAdsb then
      some (em, r.idx, et / (s.receiver r.idx).freqHz, at')
    else none
  | _ => none

/-- The slot whose clock an event ends. -/
def voided (s : State F) : Event F → Option ℕ
  | .msg now heard (.addReceiver info) => s.replaced now heard info
  | .msg _ _ (.removeReceiver r) | .msg _ _ (.clockReset r) => if s.live r then some r.idx else none
  | _ => none

section
variable (env : Env F) (key : String)

/-- The reading of `key` that comes in with an event. -/
def arrives (s : State F) (e : Event F) : List (ℕ × F × F) :=
  ((brought env s e).filter fun p => p.1 = key).toList.map Prod.snd

/-- The readings of `key` that an event forgets. -/
def forgets (s : State F) (e : Event F) : List (ℕ × F × F) :=
  (s.pending key).filter fun a => decide (voided s e = some a.1)

/-- The readings of `key` that an event gives to `solve_group`. -/
def solves (s : State F) : Event F → List (ℕ × F × F)
  | .msg _ _ _ => []
  | .sweep now window rank clk =>
    let s := (s.expireSyncpoints now).expireIfDue now
    ((State.groupsSolved env clk s (s.readyGroups now window rank)).filter fun p =>
      p.1 = key).flatMap fun p => p.2.entries

/-- What a step does to the readings of `key`. -/
def BooksAt (s : State F) (e : Event F) : Prop :=
  Books (s.pending key) (arrives env key s e) (solves env key s e) (forgets key s e)
    ((step env s e).pending key)

end

end Shard

namespace State

section
variable {env : Env F} {s : State F}

section
omit [F64 F]

theorem pending_congr {s' : State F} (h : s'.groups = s.groups) (key : String) :
    s'.pending key = s.pending key := by
  unfold pending
  rw [h]

theorem forgetPending_pending (s : State F) (rx : ℕ) (key : String) :
    (s.forgetPending rx).pending key = (s.pending key).filter fun a => decide (a.1 ≠ rx) := by
  unfold pending forgetPending
  rw [Finmap.lookup_mapVals]
  cases s.groups.lookup key with
  | none => rfl
  | some g => rfl

theorem joinGroup_pending (s : State F) (now : Instant) (rx : ℕ) (icao : Icao) (m : List UInt8)
    (mHex : String) (t at' : F) (key : String) :
    (s.joinGroup now rx icao m mHex t at').pending key =
      s.pending key ++ if mHex = key then [(rx, t, at')] else [] := by
  unfold pending joinGroup
  simp only [Finmap.lookup_upsert, @eq_comm _ key mHex]
  split
  · next hk =>
    rw [hk]
    cases s.groups.lookup key with
    | none => rfl
    | some g => rfl
  · rw [List.append_nil]

end

theorem onMlat_pending (env : Env F) (s : State F) (now : Instant) (r : RxRef) (t : F)
    (m : String) (at' : F) (key : String) :
    (s.onMlat env now r t m at').pending key = s.pending key ++
      if (s.live r && s.takesFrame env m) = true ∧ m = key then
        [(r.idx, t / (s.receiver r.idx).freqHz, at')] else [] := by
  cases ht : s.takesFrame env m with
  | false => rw [onMlat_of_not_taken ht, Bool.and_false, if_neg (by simp), List.append_nil]
  | true =>
    cases hl : s.live r with
    | false =>
      unfold onMlat
      rw [hl]
      simp
    | true =>
      obtain ⟨raw, icao, alt, hraw, hf⟩ := takesFrame_cases ht
      have hnote : (s.noteFrame r.idx icao alt at').pending key = s.pending key := by
        refine pending_congr ?_ key
        unfold noteFrame
        cases alt with
        | none => rfl
        | some a => rfl
      rw [onMlat_of_taken hl hraw hf, joinGroup_pending, hnote]
      simp

theorem onSync_pending (env : Env F) (s : State F) (now : Instant) (r : RxRef) (et ot : F)
    (em om : String) (at' : F) (key : String) :
    (s.onSync env now r et ot em om at').pending key = s.pending key ++
      if (s.reports env r em om && s.mlatAdsb) = true ∧ em = key then
        [(r.idx, et / (s.receiver r.idx).freqHz, at')] else [] := by
  unfold onSync reports
  cases hl : s.live r with
  | false => simp
  | true =>
    cases hd : decodeSync env em om with
    | none => simp
    | some d =>
      obtain ⟨de, do'⟩ := d
      simp only [Bool.not_true, Bool.false_eq_true, if_false, Option.any_some, Bool.true_and]
      cases hp : syncPositions (F := F) de do' with
      | none =>
        simp only [Option.isSome_none, Bool.false_and, Bool.false_eq_true, false_and, if_false,
          List.append_nil]
        exact pending_congr rfl key
      | some q =>
        obtain ⟨pe, po⟩ := q
        simp only [Option.isSome_some, Bool.true_and]
        rw [pending_congr (trainSync_groups _ _ _ _ _ _ _)]
        have hl' : ((s.noteSync r.idx de.icao at').notePosition de pe at').live r = true := hl
        by_cases ha : s.mlatAdsb = true
        · have ha' : ((s.noteSync r.idx de.icao at').notePosition de pe at').mlatAdsb = true := ha
          have ht : ((s.noteSync r.idx de.icao at').notePosition de pe at').takesFrame env em =
              true := takesFrame_of_decodeSync hd ha'
          rw [if_pos ha', onMlat_pending, hl', ht]
          simp only [ha, Bool.and_self, true_and]
          rfl
        · have ha' :
              ¬ ((s.noteSync r.idx de.icao at').notePosition de pe at').mlatAdsb = true := ha
          rw [if_neg ha', if_neg fun h => ha h.1, List.append_nil]
          exact pending_congr rfl key

/-! ## What a sweep solves -/

theorem groupsSolved_entries (env : Env F) (clk : String → ℕ → Instant) (s : State F)
    {keys : List String} (hkeys : keys.Nodup) (key : String) :
    ((groupsSolved env clk s keys).filter fun p => p.1 = key).flatMap (fun p => p.2.entries) =
      if key ∈ keys then s.pending key else [] := by
  induction keys generalizing s with
  | nil => rfl
  | cons k keys ih =>
    obtain ⟨hk, hkeys⟩ := List.nodup_cons.1 hkeys
    have hrest := ih (s.solveReady env clk k).1 hkeys
    rw [groupsSolved, List.filter_append, List.flatMap_append, hrest]
    by_cases heq : k = key
    · -- the group of `key` itself; it is not among the later ones
      subst heq
      rw [if_neg hk, if_pos List.mem_cons_self, List.append_nil]
      unfold pending
      cases s.groups.lookup k with
      | none => rfl
      | some g => simp
    · have hpend : (s.solveReady env clk k).1.pending key = s.pending key := by
        unfold pending
        rw [solveReady_groups, if_neg (Ne.symm heq)]
      have hfirst :
          ((s.groups.lookup k).map (Prod.mk k)).toList.filter (fun p => p.1 = key) = [] := by
        cases s.groups.lookup k with
        | none => rfl
        | some g => simp [heq]
      rw [hfirst, hpend]
      simp only [List.flatMap_nil, List.nil_append, List.mem_cons, Ne.symm heq, false_or]

theorem solveAllReady_pending (env : Env F) (clk : String → ℕ → Instant) (s : State F)
    (keys : List String) (key : String) :
    (solveAllReady env clk s keys).1.pending key = if key ∈ keys then [] else s.pending key := by
  unfold pending
  rw [solveAllReady_groups]
  split
  · rfl
  · rfl

/-- A sweep leaves the groups whose window is still open. -/
theorem sweep_leaves (env : Env F) (s : State F) (now : Instant) (window : ℕ) (rank : String → ℕ)
    (clk : String → ℕ → Instant) {key : String} {g : Group F}
    (h : (s.sweep env now window rank clk).1.groups.lookup key = some g) :
    now.since g.created < window := by
  unfold sweep at h
  simp only [solveAllReady_groups] at h
  split at h
  · cases h
  · next hready =>
    rw [mem_readyGroups, h, Option.any_some, decide_eq_true_iff] at hready
    omega

end

end State

namespace Shard

open State

/-! ## The books of a step -/

section
variable (env : Env F) {s : State F} (key : String)

theorem filter_voided_none {s : State F} {e : Event F} (h : voided s e = none) :
    forgets key s e = [] := by
  unfold forgets
  rw [h]
  exact List.filter_eq_nil_iff.2 fun a _ => by simp

/-- An event that neither brings, solves nor forgets. -/
theorem booksAt_keep {e : Event F} (hb : brought env s e = none) (hv : voided s e = none)
    (hs : solves env key s e = []) (hg : (step env s e).pending key = s.pending key) :
    BooksAt env key s e := by
  unfold BooksAt arrives
  rw [hb, hs, hg, filter_voided_none key hv]
  exact .keep

/-- A report. -/
theorem booksAt_brought {now : Instant} {heard : ℕ → F} {m : ShardMsg F} {taken : Bool}
    {text : String} {a : ℕ × F × F}
    (hb : brought env s (.msg now heard m) = if taken then some (text, a) else none)
    (hv : voided s (.msg now heard m) = none)
    (hg : (step env s (.msg now heard m)).pending key =
      s.pending key ++ if taken = true ∧ text = key then [a] else []) :
    BooksAt env key s (.msg now heard m) := by
  have harr : arrives env key s (.msg now heard m) =
      if taken = true ∧ text = key then [a] else [] := by
    unfold arrives
    rw [hb]
    cases taken with
    | false => simp
    | true =>
      by_cases hk : text = key
      · simp [hk]
      · simp [hk]
  unfold BooksAt
  rw [harr, filter_voided_none key hv, hg]
  exact .add _

/-- The end of a slot's clock. -/
theorem booksAt_voided {now : Instant} {heard : ℕ → F} {m : ShardMsg F} {i : ℕ}
    (hb : brought env s (.msg now heard m) = none) (hv : voided s (.msg now heard m) = some i)
    (hg : (step env s (.msg now heard m)).pending key =
      (s.pending key).filter fun a => decide (a.1 ≠ i)) :
    BooksAt env key s (.msg now heard m) := by
  have hleft : (step env s (.msg now heard m)).pending key =
      (s.pending key).filter fun a => !decide (voided s (.msg now heard m) = some a.1) := by
    rw [hg, hv]
    refine List.filter_congr fun a _ => ?_
    simp [eq_comm]
  unfold BooksAt arrives forgets
  rw [hb, hleft]
  exact .drop _

theorem booksAt_removeReceiver (now : Instant) (heard : ℕ → F) (r : RxRef) :
    BooksAt env key s (.msg now heard (.removeReceiver r)) := by
  have hv : voided s (.msg now heard (.removeReceiver r)) =
    if s.live r then some r.idx else none := rfl
  have hstep : step env s (.msg now heard (.removeReceiver r)) = s.removeReceiver r := rfl
  cases hl : s.live r with
  | false =>
    rw [hl] at hv
    refine booksAt_keep env key rfl hv rfl ?_
    rw [hstep, removeReceiver_of_not_live s hl]
  | true =>
    rw [hl] at hv
    refine booksAt_voided env key rfl hv ?_
    rw [hstep, removeReceiver_of_live s hl]
    exact forgetPending_pending _ r.idx key

theorem booksAt_clockReset (now : Instant) (heard : ℕ → F) (r : RxRef) :
    BooksAt env key s (.msg now heard (.clockReset r)) := by
  have hv : voided s (.msg now heard (.clockReset r)) =
    if s.live r then some r.idx else none := rfl
  have hstep : step env s (.msg now heard (.clockReset r)) = s.clockReset r := rfl
  unfold clockReset at hstep
  cases hl : s.live r with
  | false =>
    rw [hl] at hv hstep
    exact booksAt_keep env key rfl hv rfl (by rw [hstep]; rfl)
  | true =>
    rw [hl] at hv hstep
    refine booksAt_voided env key rfl hv ?_
    rw [hstep]
    exact forgetPending_pending _ r.idx key

theorem booksAt_addReceiver (wf : WellFormed s) (now : Instant) (heard : ℕ → F)
    (info : ReceiverInfo F) : BooksAt env key s (.msg now heard (.addReceiver info)) := by
  have hstep : step env s (.msg now heard (.addReceiver info)) =
    (s.addReceiver now heard info).1 := rfl
  have hv : voided s (.msg now heard (.addReceiver info)) = s.replaced now heard info := rfl
  rcases addReceiver_cases s now heard info with
    ⟨hid, h1⟩ | ⟨user, ⟨hid, hu, h1⟩ | ⟨j, hid, hu, h1⟩⟩
  · rw [replaced_of_identify hid] at hv
    exact booksAt_keep env key rfl hv rfl (by rw [hstep, h1])
  · rw [replaced_of_identify hid] at hv
    refine booksAt_keep env key rfl hv rfl ?_
    rw [hstep, h1]
    exact pending_congr (issue_groups s _) key
  · rw [replaced_of_identify hid] at hv
    have ha := ((wf.byUser user j).1 hu).1
    have hl : s.live { idx := j, gen := s.gen j } = true :=
      (live_iff s _).2 ⟨wf.lt ha, ha, rfl⟩
    refine booksAt_voided env key (i := j) rfl hv ?_
    rw [hstep, h1, pending_congr (issue_groups (s.evict j) _) key]
    unfold State.evict
    rw [removeReceiver_of_live s hl]
    exact forgetPending_pending _ j key

theorem booksAt_sweep (now : Instant) (window : ℕ) (rank : String → ℕ)
    (clk : String → ℕ → Instant) : BooksAt env key s (.sweep now window rank clk) := by
  have hpend : ((s.expireSyncpoints now).expireIfDue now).pending key = s.pending key :=
    pending_congr (expired_groups s now) key
  have hsolves := groupsSolved_entries env clk ((s.expireSyncpoints now).expireIfDue now)
    (((s.expireSyncpoints now).expireIfDue now).readyGroups_nodup now window rank) key
  have hleft := solveAllReady_pending env clk ((s.expireSyncpoints now).expireIfDue now)
    (((s.expireSyncpoints now).expireIfDue now).readyGroups now window rank) key
  have hbooks : Books (s.pending key) [] (solves env key s (.sweep now window rank clk)) []
      ((step env s (.sweep now window rank clk)).pending key) := by
    unfold solves
    simp only
    rw [hsolves]
    refine Eq.subst (motive := fun l => Books _ _ _ _ l) hleft.symm ?_
    rw [hpend]
    split
    · exact .hand
    · exact .keep
  unfold BooksAt
  rw [filter_voided_none key rfl]
  exact hbooks

/-- Every event books the readings of a text right. -/
theorem booksAt (wf : WellFormed s) (e : Event F) : BooksAt env key s e := by
  cases e with
  | sweep now window rank clk => exact booksAt_sweep env key now window rank clk
  | msg now heard m =>
    cases m with
    | addReceiver info => exact booksAt_addReceiver env key wf now heard info
    | removeReceiver r => exact booksAt_removeReceiver env key now heard r
    | clockReset r => exact booksAt_clockReset env key now heard r
    | mlat r t m at' =>
      exact booksAt_brought env key rfl rfl (onMlat_pending env s now r t m at' key)
    | sync r et ot em om at' =>
      exact booksAt_brought env key rfl rfl (onSync_pending env s now r et ot em om at' key)
    | receiverStats r =>
      refine booksAt_keep env key rfl rfl rfl (pending_congr ?_ key)
      have h : step env s (.msg now heard (.receiverStats r)) = (s.receiverStats r).1 := rfl
      rw [h]
      unfold State.receiverStats
      split
      · rfl
      · rfl
    | stats | syncJson | stateJson => exact booksAt_keep env key rfl rfl rfl rfl

end

/-! ## The books of a run -/

/-- **Every reading is accounted for.** For every text, the readings that came in over a run are
    those solved, those still pending and those forgotten with their slot's clock, each in one of
    the three and once; the solved and then the pending ones keep the order they came in; and a
    sweep at any time leaves only groups whose window is open. -/
theorem arrivals_accounted (env : Env F) (c : Config F) (es : List (Event F)) (key : String) :
    (gather (step env) (solves env key) (boot c) es ++
        (run env (boot c) es).pending key).Sublist
      (gather (step env) (arrives env key) (boot c) es) ∧
    (gather (step env) (arrives env key) (boot c) es).Perm
      (gather (step env) (solves env key) (boot c) es ++ (run env (boot c) es).pending key ++
        gather (step env) (forgets key) (boot c) es) ∧
    ∀ now window rank clk g,
      (step env (run env (boot c) es) (.sweep now window rank clk)).groups.lookup key = some g →
        now.since g.created < window := by
  have hbooks (s : State F) (e : Event F) (wf : WellFormed s) : BooksAt env key s e :=
    booksAt env key wf e
  obtain ⟨h1, h2⟩ := gather_books (step_wellFormed env) hbooks (boot_wellFormed c) es
  exact ⟨h1, h2, fun now window rank clk g hg =>
    sweep_leaves env (run env (boot c) es) now window rank clk hg⟩

end Shard

end Mlatd
