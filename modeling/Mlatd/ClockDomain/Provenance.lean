/-
  Which messages a clock-derived value was computed from (state.rs, on_sync, on_mlat,
  solve_cluster, clock_reset, forget_pending).

  `Provenance` runs beside a shard and changes nothing in it. For each pair model, each reporter
  of a sync point, each group entry and each content-time offset it collects the messages whose
  timestamps went into the value: a training adds the report's own message and the other
  reporter's, a solve adds to the reference's offset every arrival of the group and every model
  between its members. A value that is dropped and computed anew starts over. The learnt bias of
  a receiver is a correction of its delays, the same in every clock, and is not followed.

  `epoch i` is the event slot `i`'s clock dates from. `Hygiene` says that what is held under a live
  slot comes, as far as that slot's clock is concerned, from messages after its epoch.
-/
import Mlatd.Registry.Handles
import Mathlib.Data.Finset.Prod
import Mathlib.Data.Finset.Union

namespace Mlatd

variable {F : Type} [F64 F]

/-! ## What is held under a slot -/

namespace State

def hasPair (s : State F) (k : ℕ × ℕ) : Bool := (s.pairs.lookup k).isSome

def hasReporter (s : State F) (key : String × String) (i : ℕ) : Bool :=
  (s.syncpoints.lookup key).any fun sp => sp.reporters.any fun r => decide (r.1 = i)

def hasEntry (s : State F) (key : String) (i : ℕ) : Bool :=
  (s.groups.lookup key).any fun g => g.entries.any fun e => decide (e.1 = i)

def hasOffset (s : State F) (i : ℕ) : Bool := (s.stampOffset.lookup i).isSome

end State

/-! ## Provenance -/

/-- A message: the slot whose clock timed it, and its number in the run. -/
abbrev Origin := ℕ × ℕ

structure Provenance where
  /-- The number of the next event; the first is 1. -/
  next : ℕ
  /-- The event that issued the slot or last reset its clock. -/
  epoch : ℕ → ℕ
  pair : ℕ × ℕ → Finset Origin
  reporter : String × String → ℕ → Finset Origin
  entry : String → ℕ → Finset Origin
  offset : ℕ → Finset Origin

namespace Provenance

def init : Provenance :=
  { next := 1, epoch := fun _ => 0, pair := fun _ => ∅, reporter := fun _ _ => ∅,
    entry := fun _ _ => ∅, offset := fun _ => ∅ }

/-- What a value is added to: itself if it is held, nothing if it is computed anew. -/
def carried (held : Bool) (old : Finset Origin) : Finset Origin := if held then old else ∅

/-- The slot's clock dates from the current event. -/
def restart (g : Provenance) (i : ℕ) : Provenance :=
  { g with epoch := fun j => if j = i then g.next else g.epoch j }

def joinGroup (s : State F) (g : Provenance) (rx : ℕ) (mHex : String) : Provenance :=
  { g with
    entry := fun k i =>
      if k = mHex ∧ i = rx then
        insert (rx, g.next) (carried (s.hasEntry mHex rx) (g.entry mHex rx))
      else g.entry k i }

def onMlat (env : Env F) (s : State F) (g : Provenance) (r : RxRef) (mHex : String) :
    Provenance :=
  if !s.live r then g
  else
    match env.hexDecode mHex with
    | none => g
    | some m =>
      match State.mlatFrame s.mlatAdsb m with
      | none => g
      | some _ => g.joinGroup s r.idx mHex

/-- The report of `rx` at `key` trains a pair with slot `x`. -/
def trains (s : State F) (key : String × String) (rx x : ℕ) : Bool :=
  decide (x ≠ rx) && s.isAlive x && s.hasReporter key x

def trainSync (s : State F) (g : Provenance) (rx : ℕ) (key : String × String) : Provenance :=
  if State.maxReporters ≤ ((s.syncpoints.lookup key).map SyncPoint.reporters |>.getD []).length
  then g
  else
    { g with
      reporter := fun k i =>
        if k = key ∧ i = rx then
          insert (rx, g.next) (carried (s.hasReporter key rx) (g.reporter key rx))
        else g.reporter k i
      pair := fun k =>
        if k.1 = rx ∧ trains s key rx k.2 then
          insert (rx, g.next) (carried (s.hasPair k) (g.pair k) ∪ g.reporter key k.2)
        else if k.2 = rx ∧ trains s key rx k.1 then
          insert (rx, g.next) (carried (s.hasPair k) (g.pair k) ∪ g.reporter key k.1)
        else g.pair k }

def onSync (env : Env F) (s : State F) (g : Provenance) (r : RxRef) (em om : String) :
    Provenance :=
  if !s.live r then g
  else
    match State.decodeSync env em om with
    | none => g
    | some (de, do') =>
      match (State.syncPositions de do' : Option (Geodetic F × Geodetic F)) with
      | none => g
      | some _ =>
        let g := if s.mlatAdsb then g.onMlat env s r em else g
        g.trainSync s r.idx (em, om)

/-- Everything the conversion of a group reads. -/
def ofGroup (s : State F) (g : Provenance) (key : String) (grp : Group F) : Finset Origin :=
  let ms := grp.members.toFinset
  ms.biUnion (g.entry key) ∪ ((ms ×ˢ ms).filter fun k => s.hasPair k).biUnion g.pair

def solveReady (s : State F) (g : Provenance) (key : String) : Provenance :=
  match s.groups.lookup key with
  | none => g
  | some grp =>
    if grp.members.length < 4 ∨ ((s.takeGroup key).conv grp).length < 4 then g
    else
      let ref := (s.takeGroup key).electRef grp.members
      { g with
        offset := fun i =>
          if i = ref then carried (s.hasOffset ref) (g.offset ref) ∪ g.ofGroup s key grp
          else g.offset i }

def solveAllReady (env : Env F) (clk : String → ℕ → Instant) :
    State F → Provenance → List String → Provenance
  | _, g, [] => g
  | s, g, key :: keys =>
    solveAllReady env clk (s.solveReady env clk key).1 (g.solveReady s key) keys

/-- The event handled beside the shard's own step from `s`. -/
def handle (env : Env F) (s : State F) (g : Provenance) : Shard.Event F → Provenance
  | .sweep now window rank clk =>
    let s := (s.expireSyncpoints now).expireIfDue now
    g.solveAllReady env clk s (s.readyGroups now window rank)
  | .msg now heard (.addReceiver info) =>
    match (s.addReceiver now heard info).2 with
    | none => g
    | some r => g.restart r.idx
  | .msg _ _ (.clockReset r) => if !s.live r then g else g.restart r.idx
  | .msg _ _ (.sync r _ _ em om _) => g.onSync env s r em om
  | .msg _ _ (.mlat r _ m _) => g.onMlat env s r m
  | .msg _ _ _ => g

def tick (g : Provenance) : Provenance := { g with next := g.next + 1 }

/-- A shard and the provenance of what it holds, one event on. -/
def step (env : Env F) (p : State F × Provenance) (e : Shard.Event F) : State F × Provenance :=
  (Shard.step env p.1 e, (p.2.handle env p.1 e).tick)

end Provenance

/-! ## Hygiene -/

/-- What is held under a live slot was, as far as its clock goes, computed from messages after its
    epoch. -/
structure Hygiene (s : State F) (g : Provenance) : Prop where
  pair : ∀ i k n, s.isAlive i = true → k.1 = i ∨ k.2 = i → s.hasPair k = true →
    (i, n) ∈ g.pair k → g.epoch i < n
  reporter : ∀ i key n, s.isAlive i = true → s.hasReporter key i = true →
    (i, n) ∈ g.reporter key i → g.epoch i < n
  entry : ∀ i key n, s.isAlive i = true → s.hasEntry key i = true →
    (i, n) ∈ g.entry key i → g.epoch i < n
  offset : ∀ i n, s.isAlive i = true → s.hasOffset i = true → (i, n) ∈ g.offset i → g.epoch i < n

/-- What provenance records: only messages so far, and each value's own slots. -/
structure Traced (s : State F) (g : Provenance) : Prop where
  epoch : ∀ i, g.epoch i < g.next
  pair : ∀ k o, o ∈ g.pair k → o.1 = k.1 ∨ o.1 = k.2
  reporter : ∀ key i o, o ∈ g.reporter key i → o.1 = i
  entry : ∀ key i o, o ∈ g.entry key i → o.1 = i
  entry_own : ∀ key i, s.hasEntry key i = true → ∃ n ≤ g.next, (i, n) ∈ g.entry key i
  offset_own : ∀ i, s.hasOffset i = true → ∃ n ≤ g.next, (i, n) ∈ g.offset i

/-- A clock reset finds no offset of its slot. -/
def NoStaleOffset (s : State F) : Shard.Event F → Prop
  | .msg _ _ (.clockReset r) => s.live r = true → s.stampOffset.lookup r.idx = none
  | _ => True

/-! ## Held values, step by step -/

namespace State

section
omit [F64 F]

theorem hasPair_iff {s : State F} {k : ℕ × ℕ} :
    s.hasPair k = true ↔ ∃ p, s.pairs.lookup k = some p := by
  unfold hasPair
  exact Option.isSome_iff_exists

theorem hasReporter_iff {s : State F} {key : String × String} {i : ℕ} :
    s.hasReporter key i = true ↔
      ∃ sp, s.syncpoints.lookup key = some sp ∧ ∃ r ∈ sp.reporters, r.1 = i := by
  unfold hasReporter
  simp only [Option.any_eq_true, List.any_eq_true, decide_eq_true_eq]

theorem hasEntry_iff {s : State F} {key : String} {i : ℕ} :
    s.hasEntry key i = true ↔
      ∃ g, s.groups.lookup key = some g ∧ ∃ e ∈ g.entries, e.1 = i := by
  unfold hasEntry
  simp only [Option.any_eq_true, List.any_eq_true, decide_eq_true_eq]

theorem hasOffset_iff {s : State F} {i : ℕ} :
    s.hasOffset i = true ↔ ∃ o, s.stampOffset.lookup i = some o := by
  unfold hasOffset
  exact Option.isSome_iff_exists

end

/-- Everything held in `s'` is held in `s`. -/
structure Fewer (s s' : State F) : Prop where
  pair : ∀ k, s'.hasPair k = true → s.hasPair k = true
  reporter : ∀ key i, s'.hasReporter key i = true → s.hasReporter key i = true
  entry : ∀ key i, s'.hasEntry key i = true → s.hasEntry key i = true
  offset : ∀ i, s'.hasOffset i = true → s.hasOffset i = true

omit [F64 F] in
theorem Adds.fewer {s s' : State F} (h : Adds (fun _ => False) s s') : Fewer s s' where
  pair k hk := by
    obtain ⟨p, hp⟩ := hasPair_iff.1 hk
    exact hasPair_iff.2 ((h.pairs k p hp).resolve_right fun h1 => h1.1)
  reporter key i hk := by
    obtain ⟨sp, h1, r, hr, hi⟩ := hasReporter_iff.1 hk
    obtain ⟨sp', h2, h3⟩ := (h.syncpoints key sp h1 r hr).resolve_right id
    exact hasReporter_iff.2 ⟨sp', h2, r, h3, hi⟩
  entry key i hk := by
    obtain ⟨g, h1, e, he, hi⟩ := hasEntry_iff.1 hk
    obtain ⟨g', h2, h3⟩ := (h.groups key g h1 e he).resolve_right id
    exact hasEntry_iff.2 ⟨g', h2, e, h3, hi⟩
  offset i hk := by
    obtain ⟨o, ho⟩ := hasOffset_iff.1 hk
    exact hasOffset_iff.2 ((h.stampOffset i o ho).resolve_right id)

/-- Nothing is held under the slot. -/
structure Bare (s : State F) (i : ℕ) : Prop where
  pair : ∀ k, k.1 = i ∨ k.2 = i → s.hasPair k = false
  reporter : ∀ key, s.hasReporter key i = false
  entry : ∀ key, s.hasEntry key i = false
  offset : s.hasOffset i = false

omit [F64 F] in
theorem bare_of_not_mentions {s : State F} {i : ℕ} (h : ¬ s.Mentions i) : Bare s i where
  pair := by
    rintro ⟨a, b⟩ hk
    rw [← Bool.not_eq_true, hasPair_iff]
    rintro ⟨p, hp⟩
    rcases hk with rfl | rfl
    · exact h (.pairFrom b p hp)
    · exact h (.pairTo a p hp)
  reporter key := by
    rw [← Bool.not_eq_true, hasReporter_iff]
    rintro ⟨sp, h1, r, hr, hi⟩
    exact h (.reporter key sp h1 r hr hi)
  entry key := by
    rw [← Bool.not_eq_true, hasEntry_iff]
    rintro ⟨g, h1, e, he, hi⟩
    exact h (.entry key g h1 e he hi)
  offset := by
    rw [← Bool.not_eq_true, hasOffset_iff]
    rintro ⟨o, ho⟩
    exact h (.offset o ho)

end State

open State Provenance

section
omit [F64 F]

theorem Hygiene.of_fewer {s s' : State F} {g : Provenance} (h : Hygiene s g) (hf : Fewer s s')
    (ha : ∀ i, s'.isAlive i = true → s.isAlive i = true) : Hygiene s' g where
  pair i k n hi hk hh := h.pair i k n (ha i hi) hk (hf.pair k hh)
  reporter i key n hi hh := h.reporter i key n (ha i hi) (hf.reporter key i hh)
  entry i key n hi hh := h.entry i key n (ha i hi) (hf.entry key i hh)
  offset i n hi hh := h.offset i n (ha i hi) (hf.offset i hh)

theorem Traced.of_fewer {s s' : State F} {g : Provenance} (h : Traced s g) (hf : Fewer s s') :
    Traced s' g :=
  { h with
    entry_own := fun key i hh => h.entry_own key i (hf.entry key i hh)
    offset_own := fun i hh => h.offset_own i (hf.offset i hh) }

/-- A slot under which nothing is held may have its clock restarted, and only live slots count. -/
theorem Hygiene.restart {s s' : State F} {g : Provenance} {i : ℕ} (h : Hygiene s g)
    (hf : Fewer s s') (ha : ∀ j, j ≠ i → s'.isAlive j = true → s.isAlive j = true)
    (hb : Bare s' i) : Hygiene s' (g.restart i) := by
  have hepoch : ∀ j, j ≠ i → (g.restart i).epoch j = g.epoch j := fun j hj => if_neg hj
  constructor
  · intro j k n hj hk hh hn
    have hne : j ≠ i := by
      rintro rfl
      rw [hb.pair k hk] at hh
      cases hh
    rw [hepoch j hne]
    exact h.pair j k n (ha j hne hj) hk (hf.pair k hh) hn
  · intro j key n hj hh hn
    have hne : j ≠ i := by
      rintro rfl
      rw [hb.reporter key] at hh
      cases hh
    rw [hepoch j hne]
    exact h.reporter j key n (ha j hne hj) (hf.reporter key j hh) hn
  · intro j key n hj hh hn
    have hne : j ≠ i := by
      rintro rfl
      rw [hb.entry key] at hh
      cases hh
    rw [hepoch j hne]
    exact h.entry j key n (ha j hne hj) (hf.entry key j hh) hn
  · intro j n hj hh hn
    have hne : j ≠ i := by
      rintro rfl
      rw [hb.offset] at hh
      cases hh
    rw [hepoch j hne]
    exact h.offset j n (ha j hne hj) (hf.offset j hh) hn

theorem Traced.tick {s : State F} {g : Provenance} (h : Traced s g) : Traced s g.tick where
  epoch i := Nat.lt_succ_of_lt (h.epoch i)
  pair := h.pair
  reporter := h.reporter
  entry := h.entry
  entry_own key i hh :=
    (h.entry_own key i hh).imp fun _ hn => ⟨Nat.le_succ_of_le hn.1, hn.2⟩
  offset_own i hh := (h.offset_own i hh).imp fun _ hn => ⟨Nat.le_succ_of_le hn.1, hn.2⟩

theorem Hygiene.tick {s : State F} {g : Provenance} (h : Hygiene s g) : Hygiene s g.tick :=
  ⟨h.pair, h.reporter, h.entry, h.offset⟩

end

omit [F64 F] in
/-- The event that restarts a clock is the last of the provenance it is ticked into. -/
theorem Traced.restart_tick {s : State F} {g : Provenance} (h : Traced s g) (i : ℕ) :
    Traced s (g.restart i).tick where
  epoch j := by
    show (if j = i then g.next else g.epoch j) < g.next + 1
    split
    · omega
    · exact Nat.lt_succ_of_lt (h.epoch j)
  pair := h.pair
  reporter := h.reporter
  entry := h.entry
  entry_own := h.tick.entry_own
  offset_own := h.tick.offset_own

/-! ## Messages -/

theorem mem_carried {held : Bool} {old : Finset Origin} {o : Origin} (h : o ∈ carried held old) :
    held = true ∧ o ∈ old := by
  unfold carried at h
  split at h
  · next hh => exact ⟨hh, h⟩
  · simp at h

omit [F64 F] in
/-- The provenance of an entry of `rx` in the group `mHex` after its message joined. -/
theorem mem_joinGroup_entry {s : State F} {g : Provenance} {rx : ℕ} {mHex key : String} {i : ℕ}
    {o : Origin} (h : o ∈ (g.joinGroup s rx mHex).entry key i) :
    key = mHex ∧ i = rx ∧ (o = (rx, g.next) ∨ s.hasEntry mHex rx = true ∧ o ∈ g.entry mHex rx) ∨
      o ∈ g.entry key i ∧ ¬ (key = mHex ∧ i = rx) := by
  simp only [Provenance.joinGroup] at h
  split at h
  · next hk =>
    refine Or.inl ⟨hk.1, hk.2, ?_⟩
    rcases Finset.mem_insert.1 h with h1 | h1
    · exact Or.inl h1
    · exact Or.inr (mem_carried h1)
  · next hk => exact Or.inr ⟨h, hk⟩

omit [F64 F] in
theorem joinGroup_hasEntry {s : State F} {now : Instant} {rx : ℕ} {icao : Icao}
    {m : List UInt8} {mHex : String} {tS at' : F} {key : String} {i : ℕ} :
    (s.joinGroup now rx icao m mHex tS at').hasEntry key i = true ↔
      s.hasEntry key i = true ∨ key = mHex ∧ i = rx := by
  unfold State.hasEntry State.joinGroup
  simp only [Finmap.lookup_upsert]
  rw [@eq_comm _ i rx]
  by_cases hk : key = mHex
  · rw [if_pos hk, hk]
    cases s.groups.lookup mHex with
    | none => simp
    | some g => simp
  · rw [if_neg hk]
    simp [hk]

omit [F64 F] in
/-- A state that differs in logs and in one more entry of the group `mHex`. -/
theorem joinGroup_hygiene {s s' : State F} {g : Provenance} {rx : ℕ} {mHex : String}
    (h : Hygiene s g) (t : Traced s g) (ha : s'.alive = s.alive) (hp : s'.pairs = s.pairs)
    (hr : s'.syncpoints = s.syncpoints) (ho : s'.stampOffset = s.stampOffset)
    (he : ∀ key i, s'.hasEntry key i = true → s.hasEntry key i = true ∨ key = mHex ∧ i = rx) :
    Hygiene s' (g.joinGroup s rx mHex) ∧ Traced s' (g.joinGroup s rx mHex) := by
  have ha : ∀ i, s'.isAlive i = s.isAlive i := fun i => by unfold State.isAlive; rw [ha]
  have hp : ∀ k, s'.hasPair k = s.hasPair k := fun k => by unfold hasPair; rw [hp]
  have hr : ∀ key i, s'.hasReporter key i = s.hasReporter key i :=
    fun key i => by unfold hasReporter; rw [hr]
  have ho : ∀ i, s'.hasOffset i = s.hasOffset i := fun i => by unfold hasOffset; rw [ho]
  constructor
  · refine ⟨?_, ?_, ?_, ?_⟩
    · intro i k n hi hk hh
      exact h.pair i k n (ha i ▸ hi) hk (hp k ▸ hh)
    · intro i key n hi hh
      exact h.reporter i key n (ha i ▸ hi) (hr key i ▸ hh)
    · intro i key n hi hh hn
      rw [ha] at hi
      rcases mem_joinGroup_entry hn with ⟨rfl, rfl, h1 | ⟨hheld, h1⟩⟩ | ⟨h1, hne⟩
      · cases h1
        exact t.epoch i
      · exact h.entry i key n hi hheld h1
      · exact h.entry i key n hi ((he key i hh).resolve_right hne) h1
    · intro i n hi hh
      exact h.offset i n (ha i ▸ hi) (ho i ▸ hh)
  · refine ⟨t.epoch, t.pair, t.reporter, ?_, ?_, ?_⟩
    · intro key i o hn
      rcases mem_joinGroup_entry hn with ⟨rfl, rfl, rfl | ⟨-, h1⟩⟩ | ⟨h1, -⟩
      · rfl
      · exact t.entry key i o h1
      · exact t.entry key i o h1
    · intro key i hh
      by_cases hk : key = mHex ∧ i = rx
      · refine ⟨g.next, le_rfl, ?_⟩
        simp only [Provenance.joinGroup]
        rw [if_pos hk, hk.2]
        exact Finset.mem_insert_self _ _
      · obtain ⟨n, h1, h2⟩ := t.entry_own key i ((he key i hh).resolve_right hk)
        refine ⟨n, h1, ?_⟩
        simp only [Provenance.joinGroup]
        rw [if_neg hk]
        exact h2
    · intro i hh
      exact t.offset_own i (ho i ▸ hh)

theorem onMlat_hygiene (env : Env F) {s : State F} {g : Provenance} (h : Hygiene s g)
    (t : Traced s g) (now : Instant) (r : RxRef) (tc : F) (m : String) (at' : F) :
    Hygiene (s.onMlat env now r tc m at') (g.onMlat env s r m) ∧
      Traced (s.onMlat env now r tc m at') (g.onMlat env s r m) := by
  unfold State.onMlat Provenance.onMlat
  cases hl : s.live r with
  | false => exact ⟨h, t⟩
  | true =>
    cases hd : env.hexDecode m with
    | none => exact ⟨h, t⟩
    | some raw =>
      cases hf : State.mlatFrame s.mlatAdsb raw with
      | none =>
        simp only [Bool.not_true, Bool.false_eq_true, if_false, hf]
        exact ⟨h, t⟩
      | some p =>
        obtain ⟨icao, alt⟩ := p
        simp only [Bool.not_true, Bool.false_eq_true, if_false, hf]
        cases alt with
        | none =>
          exact joinGroup_hygiene h t rfl rfl rfl rfl fun key i hh => joinGroup_hasEntry.1 hh
        | some a =>
          exact joinGroup_hygiene h t rfl rfl rfl rfl fun key i hh => joinGroup_hasEntry.1 hh

/-- A pair after a report: held before, or of the reporter and one it shares the event with. -/
theorem foldl_trainPair_hasPair (icao : Icao) (rx : ℕ) (te to' : F) (s : State F)
    (others : List (ℕ × F × F)) (k : ℕ × ℕ)
    (h : (others.foldl (State.trainPair icao rx te to') s).hasPair k = true) :
    s.hasPair k = true ∨ ∃ o ∈ others, o.1 ≠ rx ∧ s.isAlive o.1 = true ∧
      (k = (rx, o.1) ∨ k = (o.1, rx)) := by
  induction others generalizing s with
  | nil => exact Or.inl h
  | cons o others ih =>
    rcases ih _ h with h1 | ⟨o', ho', hne, ha, hk⟩
    · obtain ⟨rx2, te2, to2⟩ := o
      simp only [State.trainPair] at h1
      split at h1
      · exact Or.inl h1
      · next hcond =>
        rw [not_or] at hcond
        have hone : ∀ (s : State F) ta tb, (s.trainOnce icao rx rx2 ta tb).hasPair k = true →
            s.hasPair k = true ∨ k = (rx, rx2) ∨ k = (rx2, rx) := by
          intro s ta tb hh
          obtain ⟨p, hp⟩ := hasPair_iff.1 hh
          rcases lookup_insert_cases hp with h2 | h2
          · rcases lookup_insert_cases h2 with h3 | h3
            · exact Or.inl (hasPair_iff.2 ⟨p, h3⟩)
            · exact Or.inr (Or.inl h3)
          · exact Or.inr (Or.inr h2)
        have hnew : k = (rx, rx2) ∨ k = (rx2, rx) → s.hasPair k = true ∨
            ∃ o ∈ (rx2, te2, to2) :: others, o.1 ≠ rx ∧ s.isAlive o.1 = true ∧
              (k = (rx, o.1) ∨ k = (o.1, rx)) := fun hk =>
          Or.inr ⟨_, List.mem_cons_self, hcond.1, by simpa using hcond.2, hk⟩
        rcases hone _ _ _ h1 with h2 | h2
        · rcases hone _ _ _ h2 with h3 | h3
          · exact Or.inl h3
          · exact hnew h3
        · exact hnew h2
    · rw [(trainPair_sameSlots icao rx te to' s o).isAlive] at ha
      exact Or.inr ⟨o', List.mem_cons_of_mem _ ho', hne, ha, hk⟩

/-- Training touches no sync point, no group and no offset. -/
structure SameRest (s s' : State F) : Prop where
  syncpoints : s'.syncpoints = s.syncpoints
  groups : s'.groups = s.groups
  stampOffset : s'.stampOffset = s.stampOffset

omit [F64 F] in
theorem SameRest.trans {s s' s'' : State F} (h : SameRest s s') (h' : SameRest s' s'') :
    SameRest s s'' :=
  ⟨h'.syncpoints.trans h.syncpoints, h'.groups.trans h.groups,
    h'.stampOffset.trans h.stampOffset⟩

theorem trainOnce_sameRest (s : State F) (icao : Icao) (rx rx2 : ℕ) (ta tb : F) :
    SameRest s (s.trainOnce icao rx rx2 ta tb) := ⟨rfl, rfl, rfl⟩

theorem foldl_trainPair_sameRest (icao : Icao) (rx : ℕ) (te to' : F) (s : State F)
    (others : List (ℕ × F × F)) :
    SameRest s (others.foldl (State.trainPair icao rx te to') s) := by
  induction others generalizing s with
  | nil => exact ⟨rfl, rfl, rfl⟩
  | cons o others ih =>
    refine SameRest.trans ?_ (ih _)
    obtain ⟨rx2, te2, to2⟩ := o
    simp only [State.trainPair]
    split
    · exact ⟨rfl, rfl, rfl⟩
    · exact (trainOnce_sameRest _ _ _ _ _ _).trans (trainOnce_sameRest _ _ _ _ _ _)

omit [F64 F] in
/-- The sync point after a report, before it trains. -/
theorem joined_hasReporter {s : State F} {now : Instant} (rx : ℕ) {key : String × String}
    (te to' : F) {sp : SyncPoint F} (hsp : sp.reporters =
      (s.syncpointAt now key).reporters ∨ sp.reporters =
      (s.syncpointAt now key).reporters ++ [(rx, te, to')]) {k : String × String} {i : ℕ}
    (h : State.hasReporter { s with syncpoints := s.syncpoints.insert key sp } k i = true) :
    s.hasReporter k i = true ∨ (k = key ∧ i = rx ∧ sp.reporters =
      (s.syncpointAt now key).reporters ++ [(rx, te, to')]) := by
  obtain ⟨sp', h1, r, hr, hi⟩ := hasReporter_iff.1 h
  rcases lookup_insert_cases h1 with h2 | rfl
  · exact Or.inl (hasReporter_iff.2 ⟨sp', h2, r, hr, hi⟩)
  · rw [Finmap.lookup_insert] at h1
    cases h1
    have hold : r ∈ (s.syncpointAt now k).reporters → s.hasReporter k i = true := by
      intro hr
      obtain ⟨sp, h3, h4⟩ := syncpointAt_reporter hr
      exact hasReporter_iff.2 ⟨sp, h3, r, h4, hi⟩
    rcases hsp with h3 | h3
    · rw [h3] at hr
      exact Or.inl (hold hr)
    · have hr' := hr
      rw [h3] at hr'
      rcases List.mem_append.1 hr' with h4 | h4
      · exact Or.inl (hold h4)
      · rw [List.mem_singleton.1 h4] at hi
        exact Or.inr ⟨rfl, hi.symm, h3⟩

section
omit [F64 F]

theorem syncpointAt_reporters (s : State F) (now : Instant) (key : String × String) :
    (s.syncpointAt now key).reporters =
      ((s.syncpoints.lookup key).map SyncPoint.reporters).getD [] := by
  unfold State.syncpointAt
  cases s.syncpoints.lookup key with
  | none => rfl
  | some sp => rfl

/-- The provenance of a pair after a report that joined its sync point. -/
theorem mem_trainSync_pair {s : State F} {g : Provenance} {rx : ℕ} {key : String × String}
    (hfull : ¬ State.maxReporters ≤
      (((s.syncpoints.lookup key).map SyncPoint.reporters).getD []).length)
    {k : ℕ × ℕ} {o : Origin} (h : o ∈ (g.trainSync s rx key).pair k) :
    (∃ x, (k = (rx, x) ∨ k = (x, rx)) ∧ trains s key rx x = true ∧
      (o = (rx, g.next) ∨ s.hasPair k = true ∧ o ∈ g.pair k ∨ o ∈ g.reporter key x)) ∨
    o ∈ g.pair k ∧ ∀ x, trains s key rx x = true → k ≠ (rx, x) ∧ k ≠ (x, rx) := by
  unfold Provenance.trainSync at h
  rw [if_neg hfull] at h
  obtain ⟨a, b⟩ := k
  simp only at h
  have hmem : ∀ x, o ∈ insert (rx, g.next)
      (carried (s.hasPair (a, b)) (g.pair (a, b)) ∪ g.reporter key x) →
      o = (rx, g.next) ∨ s.hasPair (a, b) = true ∧ o ∈ g.pair (a, b) ∨ o ∈ g.reporter key x := by
    intro x h
    rcases Finset.mem_insert.1 h with h1 | h1
    · exact Or.inl h1
    · exact Or.inr ((Finset.mem_union.1 h1).imp_left mem_carried)
  split at h
  · next hk => exact Or.inl ⟨b, Or.inl (by rw [hk.1]), hk.2, hmem b h⟩
  · next hk1 =>
    split at h
    · next hk => exact Or.inl ⟨a, Or.inr (by rw [hk.1]), hk.2, hmem a h⟩
    · next hk2 =>
      refine Or.inr ⟨h, fun x hx => ⟨?_, ?_⟩⟩
      · rintro ⟨⟩
        exact hk1 ⟨rfl, hx⟩
      · rintro ⟨⟩
        exact hk2 ⟨rfl, hx⟩

theorem mem_trainSync_reporter {s : State F} {g : Provenance} {rx : ℕ} {key : String × String}
    (hfull : ¬ State.maxReporters ≤
      (((s.syncpoints.lookup key).map SyncPoint.reporters).getD []).length)
    {k : String × String} {i : ℕ} {o : Origin}
    (h : o ∈ (g.trainSync s rx key).reporter k i) :
    k = key ∧ i = rx ∧ (o = (rx, g.next) ∨ s.hasReporter key rx = true ∧ o ∈ g.reporter key rx) ∨
      o ∈ g.reporter k i ∧ ¬ (k = key ∧ i = rx) := by
  unfold Provenance.trainSync at h
  rw [if_neg hfull] at h
  simp only at h
  split at h
  · next hk =>
    refine Or.inl ⟨hk.1, hk.2, ?_⟩
    rcases Finset.mem_insert.1 h with h1 | h1
    · exact Or.inl h1
    · exact Or.inr (mem_carried h1)
  · next hk => exact Or.inr ⟨h, hk⟩

theorem trainSync_rest (s : State F) (g : Provenance) (rx : ℕ) (key : String × String) :
    (g.trainSync s rx key).next = g.next ∧ (g.trainSync s rx key).epoch = g.epoch ∧
      (g.trainSync s rx key).entry = g.entry ∧ (g.trainSync s rx key).offset = g.offset := by
  unfold Provenance.trainSync
  split <;> exact ⟨rfl, rfl, rfl, rfl⟩

theorem trains_iff {s : State F} {key : String × String} {rx x : ℕ} :
    trains s key rx x = true ↔ x ≠ rx ∧ s.isAlive x = true ∧ s.hasReporter key x = true := by
  unfold trains
  simp [and_assoc]

end

/-- What a report that joined its sync point leaves held. -/
theorem trainSync_held {s : State F} {now : Instant} {rx : ℕ} {icao : Icao}
    {key : String × String} {te to' : F}
    (hfull : ¬ State.maxReporters ≤ (s.syncpointAt now key).reporters.length) :
    (∀ k, (s.trainSync now rx icao key te to').hasPair k = true → s.hasPair k = true ∨
      ∃ x, trains s key rx x = true ∧ (k = (rx, x) ∨ k = (x, rx))) ∧
    (∀ k i, (s.trainSync now rx icao key te to').hasReporter k i = true →
      s.hasReporter k i = true ∨ k = key ∧ i = rx) ∧
    (∀ k i, (s.trainSync now rx icao key te to').hasEntry k i = s.hasEntry k i) ∧
    ∀ i, (s.trainSync now rx icao key te to').hasOffset i = s.hasOffset i := by
  simp only [State.trainSync, if_neg hfull]
  have hrest := foldl_trainPair_sameRest icao rx te to'
    { s with syncpoints := s.syncpoints.insert key
              { s.syncpointAt now key with
                reporters := (s.syncpointAt now key).reporters ++ [(rx, te, to')] } }
    (s.syncpointAt now key).reporters
  refine ⟨fun k hk => ?_, fun k i hk => ?_, fun k i => ?_, fun i => ?_⟩
  · rcases foldl_trainPair_hasPair _ _ _ _ _ _ k hk with h1 | ⟨o, ho, hne, ha, hk⟩
    · exact Or.inl h1
    · obtain ⟨sp, h3, h4⟩ := syncpointAt_reporter ho
      exact Or.inr ⟨o.1, trains_iff.2 ⟨hne, ha, hasReporter_iff.2 ⟨sp, h3, o, h4, rfl⟩⟩, hk⟩
  · unfold hasReporter at hk
    rw [hrest.syncpoints] at hk
    exact (joined_hasReporter rx te to' (Or.inr rfl) hk).imp_right fun h => ⟨h.1, h.2.1⟩
  · unfold hasEntry
    rw [hrest.groups]
  · unfold hasOffset
    rw [hrest.stampOffset]

theorem trainSync_hygiene {s : State F} {g : Provenance} (h : Hygiene s g) (t : Traced s g)
    (now : Instant) {rx : ℕ} (icao : Icao) (key : String × String) (te to' : F) :
    Hygiene (s.trainSync now rx icao key te to') (g.trainSync s rx key) ∧
      Traced (s.trainSync now rx icao key te to') (g.trainSync s rx key) := by
  have ha := (trainSync_sameSlots s now rx icao key te to').isAlive
  by_cases hfull : State.maxReporters ≤ (s.syncpointAt now key).reporters.length
  · -- the sync point is full: nothing joins it
    have hg : g.trainSync s rx key = g := by
      unfold Provenance.trainSync
      rw [← syncpointAt_reporters s now key, if_pos hfull]
    have hf : Fewer s (s.trainSync now rx icao key te to') := by
      simp only [State.trainSync, if_pos hfull]
      refine ⟨fun _ hh => hh, fun k i hh => ?_, fun _ _ hh => hh, fun _ hh => hh⟩
      rcases joined_hasReporter rx te to' (Or.inl rfl) hh with h1 | ⟨-, -, h1⟩
      · exact h1
      · simp at h1
    rw [hg]
    exact ⟨h.of_fewer hf fun i hi => ha i ▸ hi, t.of_fewer hf⟩
  · obtain ⟨hpair, hrep, hent, hoff⟩ := @trainSync_held _ _ s now rx icao key te to' hfull
    have hfull' := hfull
    rw [syncpointAt_reporters] at hfull'
    obtain ⟨hnext, hepoch, hentry, hoffset⟩ := trainSync_rest s g rx key
    constructor
    · refine ⟨?_, ?_, ?_, ?_⟩
      · intro i k n hi hk hh hn
        rw [ha] at hi
        rw [hepoch]
        rcases mem_trainSync_pair hfull' hn with ⟨x, hkx, hx, h1 | ⟨hheld, h1⟩ | h1⟩ | ⟨h1, hno⟩
        · cases h1
          exact t.epoch _
        · exact h.pair i k n hi hk hheld h1
        · have hix : i = x := t.reporter key x _ h1
          subst hix
          exact h.reporter i key n hi (trains_iff.1 hx).2.2 h1
        · rcases hpair k hh with h2 | ⟨x, hx, hkx⟩
          · exact h.pair i k n hi hk h2 h1
          · rcases hkx with hkx | hkx
            · exact absurd hkx (hno x hx).1
            · exact absurd hkx (hno x hx).2
      · intro i k n hi hh hn
        rw [ha] at hi
        rw [hepoch]
        rcases mem_trainSync_reporter hfull' hn with ⟨rfl, rfl, h1 | ⟨hheld, h1⟩⟩ | ⟨h1, hne⟩
        · cases h1
          exact t.epoch i
        · exact h.reporter i k n hi hheld h1
        · exact h.reporter i k n hi ((hrep k i hh).resolve_right hne) h1
      · intro i k n hi hh hn
        rw [hepoch]
        rw [hentry] at hn
        exact h.entry i k n (ha i ▸ hi) (hent k i ▸ hh) hn
      · intro i n hi hh hn
        rw [hepoch]
        rw [hoffset] at hn
        exact h.offset i n (ha i ▸ hi) (hoff i ▸ hh) hn
    · refine ⟨?_, ?_, ?_, ?_, ?_, ?_⟩
      · rw [hepoch, hnext]
        exact t.epoch
      · intro k o ho
        rcases mem_trainSync_pair hfull' ho with ⟨x, hkx, hx, rfl | ⟨-, h1⟩ | h1⟩ | ⟨h1, -⟩
        · rcases hkx with rfl | rfl
          · exact Or.inl rfl
          · exact Or.inr rfl
        · exact t.pair k o h1
        · have hox := t.reporter key x o h1
          rcases hkx with rfl | rfl
          · exact Or.inr hox
          · exact Or.inl hox
        · exact t.pair k o h1
      · intro k i o ho
        rcases mem_trainSync_reporter hfull' ho with ⟨rfl, rfl, rfl | ⟨-, h1⟩⟩ | ⟨h1, -⟩
        · rfl
        · exact t.reporter k i o h1
        · exact t.reporter k i o h1
      · rw [hentry]
        exact t.entry
      · intro k i hh
        rw [hent] at hh
        rw [hentry, hnext]
        exact t.entry_own k i hh
      · intro i hh
        rw [hoff] at hh
        rw [hoffset, hnext]
        exact t.offset_own i hh

theorem onMlat_syncpoints (env : Env F) (s : State F) (now : Instant) (r : RxRef) (t : F)
    (m : String) (at' : F) : (s.onMlat env now r t m at').syncpoints = s.syncpoints := by
  rcases onMlat_cases env s now r t m at' with h | ⟨-, icao, alts, raw, tS, -, h⟩
  · rw [h]
  · rw [h]
    rfl

omit [F64 F] in
/-- Provenance of a report reads the sync points, the pairs and the liveness only. -/
theorem trainSync_congr {s s' : State F} (hs : s'.syncpoints = s.syncpoints)
    (ha : s'.alive = s.alive) (hp : s'.pairs = s.pairs) (g : Provenance) (rx : ℕ)
    (key : String × String) : g.trainSync s' rx key = g.trainSync s rx key := by
  have htrains : trains s' key rx = trains s key rx := by
    funext x
    unfold trains hasReporter State.isAlive
    rw [hs, ha]
  have hpair : s'.hasPair = s.hasPair := by
    funext k
    unfold hasPair
    rw [hp]
  unfold Provenance.trainSync hasReporter
  rw [hs, htrains, hpair]

theorem onSync_hygiene (env : Env F) {s : State F} {g : Provenance} (h : Hygiene s g)
    (t : Traced s g) (now : Instant) (r : RxRef) (et ot : F) (em om : String) (at' : F) :
    Hygiene (s.onSync env now r et ot em om at') (g.onSync env s r em om) ∧
      Traced (s.onSync env now r et ot em om at') (g.onSync env s r em om) := by
  unfold State.onSync Provenance.onSync
  cases hl : s.live r with
  | false => exact ⟨h, t⟩
  | true =>
    cases hd : State.decodeSync env em om with
    | none => exact ⟨h, t⟩
    | some p =>
      obtain ⟨de, do'⟩ := p
      have hf : Fewer s (s.noteSync r.idx de.icao at') :=
        ⟨fun _ hh => hh, fun _ _ hh => hh, fun _ _ hh => hh, fun _ hh => hh⟩
      cases hp : (State.syncPositions de do' : Option (Geodetic F × Geodetic F)) with
      | none =>
        simp only [Bool.not_true, Bool.false_eq_true, if_false, hp]
        exact ⟨h.of_fewer hf fun _ hi => hi, t.of_fewer hf⟩
      | some q =>
        obtain ⟨pe, po⟩ := q
        simp only [Bool.not_true, Bool.false_eq_true, if_false, hp]
        have hslots := (noteSync_sameSlots s r.idx de.icao at').trans
          (notePosition_sameSlots _ de pe at')
        have hf' : Fewer s ((s.noteSync r.idx de.icao at').notePosition de pe at') :=
          ⟨fun _ hh => hh, fun _ _ hh => hh, fun _ _ hh => hh, fun _ hh => hh⟩
        have h1 := h.of_fewer hf' fun _ hi => hi
        have t1 := t.of_fewer hf'
        by_cases hm : s.mlatAdsb = true
        · have hm' : ((s.noteSync r.idx de.icao at').notePosition de pe at').mlatAdsb = true := hm
          rw [if_pos hm, if_pos hm']
          have hg : g.onMlat env ((s.noteSync r.idx de.icao at').notePosition de pe at') r em =
              g.onMlat env s r em := by
            unfold Provenance.onMlat
            rw [hslots.live r]
            rfl
          have h2 := onMlat_hygiene env h1 t1 now r et em at'
          rw [hg] at h2
          have hsp : (((s.noteSync r.idx de.icao at').notePosition de pe at').onMlat env now r et em
              at').syncpoints = s.syncpoints := onMlat_syncpoints _ _ _ _ _ _ _
          have hpairs : (((s.noteSync r.idx de.icao at').notePosition de pe at').onMlat env now r et
              em at').pairs = s.pairs := onMlat_pairs _ _ _ _ _ _ _
          have halive := (onMlat_sameSlots env _ now r et em at').alive.trans hslots.alive
          rw [← trainSync_congr hsp halive hpairs]
          exact trainSync_hygiene h2.1 h2.2 now de.icao (em, om) _ _
        · have hm' : ¬ ((s.noteSync r.idx de.icao at').notePosition de pe at').mlatAdsb = true := hm
          rw [if_neg hm, if_neg hm']
          exact trainSync_hygiene h1 t1 now de.icao (em, om) _ _

end Mlatd
