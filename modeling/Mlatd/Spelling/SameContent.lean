/-
  States that differ in the spelling of their messages (state.rs, on_sync, on_mlat, sweep).

  `SameContent` relates two states that are the same but for the texts their sync points and
  groups are kept under, no content being kept under two texts. It survives a message under
  another text when no other text of the content is held (`Alone`), and a sweep that walks the
  groups in an order of their contents: the groups leave both states in one order, and their
  solves are the same.
-/
import Mlatd.Lib.Spelt
import Mlatd.Spelling.Blind
import Mlatd.Tracks.Recipients

namespace Mlatd

variable {F : Type} [F64 F]

open Finmap

/-- The bytes of the even and the odd frame. -/
def Env.readPair (env : Env F) (key : String × String) : Option (List UInt8) × Option (List UInt8) :=
  (env.hexDecode key.1, env.hexDecode key.2)

namespace State

/-- The states are the same but for the texts of the messages in them. -/
structure SameContent (env : Env F) (s s' : State F) : Prop where
  rest : s' = s.rekeyed s'.syncpoints s'.groups
  syncpoints : Spelt env.readPair s.syncpoints s'.syncpoints
  groups : Spelt env.hexDecode s.groups s'.groups

/-- A function of the state that is blind to the texts. -/
def Blind (f : State F → State F) : Prop := ∀ s sps gs, f (s.rekeyed sps gs) = (f s).rekeyed sps gs

omit [F64 F] in
theorem Blind.syncpoints {f : State F → State F} (hf : Blind f) (s : State F) :
    (f s).syncpoints = s.syncpoints := by
  have h := congrArg State.syncpoints (hf s s.syncpoints s.groups)
  exact h

omit [F64 F] in
theorem Blind.groups {f : State F → State F} (hf : Blind f) (s : State F) :
    (f s).groups = s.groups := by
  have h := congrArg State.groups (hf s s.syncpoints s.groups)
  exact h

namespace SameContent

variable {env : Env F} {s s' : State F}

omit [F64 F] in
theorem blind (h : SameContent env s s') {f : State F → State F} (hf : Blind f) :
    SameContent env (f s) (f s') where
  rest := by
    rw [hf.syncpoints, hf.groups]
    exact (congrArg f h.rest).trans (hf s _ _)
  syncpoints := by
    rw [hf.syncpoints, hf.syncpoints]
    exact h.syncpoints
  groups := by
    rw [hf.groups, hf.groups]
    exact h.groups

omit [F64 F] in
theorem live (h : SameContent env s s') (r : RxRef) : s'.live r = s.live r := by
  rw [h.rest]
  rfl

/-! ## Messages that leave the texts alone -/

omit [F64 F] in
theorem forgetPending (h : SameContent env s s') (rx : ℕ) :
    SameContent env (s.forgetPending rx) (s'.forgetPending rx) where
  rest := by
    have hr := h.rest
    rw [hr]
    rfl
  syncpoints := by
    have h1 := h.syncpoints.mapVals fun sp : SyncPoint F =>
      ({ sp with reporters := sp.reporters.filter fun r => decide (r.1 ≠ rx) } : SyncPoint F)
    exact h1
  groups := by
    have h1 := h.groups.mapVals fun g : Group F =>
      ({ g with entries := g.entries.filter fun e => decide (e.1 ≠ rx) } : Group F)
    exact h1

theorem removeReceiver (h : SameContent env s s') (r : RxRef) :
    SameContent env (s.removeReceiver r) (s'.removeReceiver r) := by
  unfold State.removeReceiver
  rw [h.live]
  cases s.live r with
  | false => exact h
  | true =>
    have h1 := h.blind (f := fun s : State F =>
      State.dropPairs { s with alive := s.alive.set r.idx false } r.idx) fun _ _ _ => rfl
    exact ((h1.forgetPending r.idx).blind (f := fun s => s.dropSlotLogs r.idx)
      fun _ _ _ => rfl).blind (f := fun s => s.freeSlot r.idx) fun _ _ _ => rfl

omit [F64 F] in
theorem clockReset (h : SameContent env s s') (r : RxRef) :
    SameContent env (s.clockReset r) (s'.clockReset r) := by
  unfold State.clockReset
  rw [h.live]
  cases s.live r with
  | false => exact h
  | true =>
    exact (h.blind (f := fun s => s.dropPairs r.idx) fun _ _ _ => rfl).forgetPending r.idx

theorem issue (h : SameContent env s s') (info : ReceiverInfo F) :
    SameContent env (s.issue info).1 (s'.issue info).1 :=
  h.blind (f := fun s => (s.issue info).1) fun s sps gs =>
    congrArg Prod.fst (issue_rekeyed s sps gs info)

theorem addReceiver (h : SameContent env s s') (now : Instant) (heard : ℕ → F)
    (info : ReceiverInfo F) :
    SameContent env (s.addReceiver now heard info).1 (s'.addReceiver now heard info).1 := by
  have hid : s'.identify now heard info = s.identify now heard info := by
    rw [h.rest]
    rfl
  unfold State.addReceiver
  rw [hid]
  cases s.identify now heard info with
  | none => exact h
  | some p =>
    obtain ⟨replaced, user⟩ := p
    cases replaced with
    | none => exact h.issue _
    | some i =>
      have hgen : s'.gen i = s.gen i := by
        rw [h.rest]
        rfl
      have h1 : SameContent env (s.evict i) (s'.evict i) := by
        unfold evict
        rw [hgen]
        exact h.removeReceiver _
      exact h1.issue _

/-! ## Messages that go under their text -/

omit [F64 F] in
theorem insertSyncpoint (h : SameContent env s s') {key key' : String × String}
    (hkey : env.readPair key' = env.readPair key) (hk : Alone env.readPair s.syncpoints key)
    (hk' : Alone env.readPair s'.syncpoints key') (sp : SyncPoint F) :
    SameContent env { s with syncpoints := s.syncpoints.insert key sp }
      { s' with syncpoints := s'.syncpoints.insert key' sp } where
  rest := by
    rw [h.rest]
    rfl
  syncpoints := h.syncpoints.insert hkey hk hk' sp
  groups := h.groups

theorem trainSync (h : SameContent env s s') (now : Instant) (rx : ℕ) (icao : Icao)
    {key key' : String × String} (te to' : F) (hkey : env.readPair key' = env.readPair key)
    (hk : Alone env.readPair s.syncpoints key) (hk' : Alone env.readPair s'.syncpoints key') :
    SameContent env (s.trainSync now rx icao key te to')
      (s'.trainSync now rx icao key' te to') := by
  have hsp : s'.syncpointAt now key' = s.syncpointAt now key := by
    unfold syncpointAt
    rw [h.syncpoints.lookup_eq hkey hk hk']
  unfold State.trainSync
  simp only
  rw [hsp]
  split
  · exact h.insertSyncpoint hkey hk hk' _
  · exact (h.insertSyncpoint hkey hk hk' _).blind (f := fun s => List.foldl _ s _)
      fun s sps gs => foldl_rekeyed s sps gs
        (fun s => trainPair_rekeyed s sps gs icao rx te to') _

omit [F64 F] in
theorem joinGroup (h : SameContent env s s') (now : Instant) (rx : ℕ) (icao : Icao)
    (raw : List UInt8) {m m' : String} (tS at' : F) (hm : env.hexDecode m' = env.hexDecode m)
    (hk : Alone env.hexDecode s.groups m) (hk' : Alone env.hexDecode s'.groups m') :
    SameContent env (s.joinGroup now rx icao raw m tS at')
      (s'.joinGroup now rx icao raw m' tS at') where
  rest := by
    rw [h.rest]
    rfl
  syncpoints := h.syncpoints
  groups := by
    have h1 := h.groups.upsert hm hk hk'
      { created := now, icao := icao, df17 := raw.head?.map (fun b : UInt8 => b >>> 3) == some 17,
        entries := [] }
      fun g => { g with entries := g.entries ++ [(rx, tS, at')] }
    exact h1

end SameContent

/-! ## Messages that go under their text, when they are taken -/

section
variable (env : Env F) (s : State F)

/-- The message is a report that goes under its text. -/
def reports (r : RxRef) (em om : String) : Bool :=
  s.live r && (decodeSync env em om).any fun d => (syncPositions (F := F) d.1 d.2).isSome

/-- The altitude and the report of a frame that is taken into a group. -/
def noteFrame (rx : ℕ) (icao : Icao) (alt : Option ℤ) (at' : F) : State F :=
  State.noteMlat (match alt with
    | some a => { s with altsFt := s.altsFt.insert icao a }
    | none => s) rx icao at'

variable {env s}

/-- A message that is not taken into a group does nothing. -/
theorem onMlat_of_not_taken {r : RxRef} {m : String} (h : s.takesFrame env m = false)
    (now : Instant) (t at' : F) : s.onMlat env now r t m at' = s := by
  unfold takesFrame at h
  unfold onMlat
  cases s.live r with
  | false => rfl
  | true =>
    cases hm : env.hexDecode m with
    | none => rfl
    | some raw =>
      rw [hm, Option.bind_some, Option.isSome_eq_false_iff, Option.isNone_iff_eq_none] at h
      simp only [Bool.not_true, Bool.false_eq_true, if_false, h]

/-- A message that is taken into a group: its altitude, its report, and its group. -/
theorem onMlat_of_taken {r : RxRef} {m : String} (hl : s.live r = true)
    {raw : List UInt8} {icao : Icao} {alt : Option ℤ} (hm : env.hexDecode m = some raw)
    (hf : mlatFrame s.mlatAdsb raw = some (icao, alt)) (now : Instant) (t at' : F) :
    s.onMlat env now r t m at' = (s.noteFrame r.idx icao alt at').joinGroup now r.idx icao raw m
      (t / (s.receiver r.idx).freqHz) at' := by
  unfold onMlat
  rw [hl, hm]
  simp only [Bool.not_true, Bool.false_eq_true, if_false, hf]
  cases alt with
  | none => rfl
  | some a => rfl

omit [F64 F] in
theorem takesFrame_cases {m : String} (h : s.takesFrame env m = true) :
    ∃ raw icao alt, env.hexDecode m = some raw ∧ mlatFrame s.mlatAdsb raw = some (icao, alt) := by
  unfold takesFrame at h
  obtain ⟨⟨icao, alt⟩, h1⟩ := Option.isSome_iff_exists.1 h
  obtain ⟨raw, hm, hf⟩ := Option.bind_eq_some_iff.1 h1
  exact ⟨raw, icao, alt, hm, hf⟩

omit [F64 F] in
/-- The even frame of a report is one that goes into a group, where ADS-B frames do. -/
theorem takesFrame_of_decodeSync {em om : String} {d : Df17Airborne × Df17Airborne}
    (hd : decodeSync env em om = some d) (ha : s.mlatAdsb = true) : s.takesFrame env em = true := by
  unfold decodeSync at hd
  cases hem : env.hexDecode em with
  | none =>
    rw [hem] at hd
    cases hd
  | some raw =>
    cases hom : env.hexDecode om with
    | none =>
      rw [hem, hom] at hd
      cases hd
    | some raw' =>
      rw [hem, hom] at hd
      cases hp : parseDf17Airborne raw with
      | none =>
        simp only [hp] at hd
        cases hd
      | some de =>
        have hdf : dfOf raw = some 17 := by
          unfold parseDf17Airborne at hp
          split at hp
          · cases hp
          · next hne =>
            unfold dfOf
            rw [if_pos (by omega)]
            exact congrArg some (by_contra fun h => hne (Or.inr (Or.inl h)))
        unfold takesFrame
        rw [hem, Option.bind_some]
        unfold mlatFrame
        simp only [hdf, ha, if_true, hp, Option.map_some, Option.isSome_some]

end

omit [F64 F] in
theorem mem_readyGroups {s : State F} {now : Instant} {window : ℕ} {rank : String → ℕ} {m : String} :
    m ∈ s.readyGroups now window rank ↔
      (s.groups.lookup m).any (fun g => decide (window ≤ now.since g.created)) = true := by
  unfold readyGroups
  rw [List.mem_insertionSort, Finset.mem_sort, Finset.mem_filter, mem_keys, mem_iff_isSome]
  exact and_iff_right_of_imp Option.isSome_of_any

omit [F64 F] in
theorem mem_of_mem_readyGroups {s : State F} {now : Instant} {window : ℕ} {rank : String → ℕ}
    {m : String} (h : m ∈ s.readyGroups now window rank) : m ∈ s.groups :=
  mem_iff_isSome.2 (Option.isSome_of_any (mem_readyGroups.1 h))

omit [F64 F] in
theorem readyGroups_nodup (s : State F) (now : Instant) (window : ℕ) (rank : String → ℕ) :
    (s.readyGroups now window rank).Nodup :=
  (List.perm_insertionSort _ _).nodup_iff.2 (Finset.sort_nodup _ _)

omit [F64 F] in
theorem readyGroups_pairwise (s : State F) (now : Instant) (window : ℕ) (rank : String → ℕ) :
    ((s.readyGroups now window rank).map rank).Pairwise (· ≤ ·) := by
  have htotal : Std.Total fun a b : String => rank a ≤ rank b := ⟨fun a b => Nat.le_total _ _⟩
  have htrans : IsTrans String fun a b => rank a ≤ rank b := ⟨fun a b c => Nat.le_trans⟩
  exact List.pairwise_map.2 (List.pairwise_insertionSort _ _)

theorem mem_of_mem_solveReady {env : Env F} {clk : String → ℕ → Instant} {s : State F}
    {m key : String} (h : m ∈ (s.solveReady env clk key).1.groups) : m ∈ s.groups := by
  obtain ⟨g, hg⟩ := mem_iff.1 h
  rw [solveReady_groups] at hg
  split at hg
  · cases hg
  · exact mem_iff.2 ⟨g, hg⟩

namespace SameContent

variable {env : Env F} {s s' : State F}

omit [F64 F] in
theorem takesFrame (h : SameContent env s s') {m m' : String}
    (hm : env.hexDecode m' = env.hexDecode m) : s'.takesFrame env m' = s.takesFrame env m := by
  unfold State.takesFrame
  rw [hm, h.rest]
  rfl

theorem onMlat (h : SameContent env s s') (now : Instant) (r : RxRef) (t at' : F) {m m' : String}
    (hm : env.hexDecode m' = env.hexDecode m)
    (hk : s.live r = true → s.takesFrame env m = true → Alone env.hexDecode s.groups m)
    (hk' : s'.live r = true → s'.takesFrame env m' = true → Alone env.hexDecode s'.groups m') :
    SameContent env (s.onMlat env now r t m at') (s'.onMlat env now r t m' at') := by
  rw [h.live, h.takesFrame hm] at hk'
  cases hl : s.live r with
  | false =>
    have hl' : s'.live r = false := (h.live r).trans hl
    unfold State.onMlat
    rw [hl, hl']
    exact h
  | true =>
    cases ht : s.takesFrame env m with
    | false =>
      rw [onMlat_of_not_taken ht, onMlat_of_not_taken ((h.takesFrame hm).trans ht)]
      exact h
    | true =>
      obtain ⟨raw, icao, alt, hraw, hf⟩ := takesFrame_cases ht
      have hf' : mlatFrame s'.mlatAdsb raw = some (icao, alt) := by
        rw [h.rest]
        exact hf
      have hfreq : s'.receiver r.idx = s.receiver r.idx := by
        rw [h.rest]
        rfl
      have hnote : Blind fun s : State F => s.noteFrame r.idx icao alt at' := by
        intro s sps gs
        cases alt with
        | none => rfl
        | some a => rfl
      rw [onMlat_of_taken hl hraw hf, onMlat_of_taken ((h.live r).trans hl) (hm.trans hraw) hf',
        hfreq]
      refine (h.blind hnote).joinGroup now r.idx icao raw _ at' hm ?_ ?_
      · rw [hnote.groups]
        exact hk hl ht
      · rw [hnote.groups]
        exact hk' hl ht

theorem onSync (h : SameContent env s s') (now : Instant) (r : RxRef) (et ot at' : F)
    {em em' om om' : String} (hem : env.hexDecode em' = env.hexDecode em)
    (hom : env.hexDecode om' = env.hexDecode om)
    (hk : s.reports env r em om = true → Alone env.readPair s.syncpoints (em, om) ∧
      (s.mlatAdsb = true → Alone env.hexDecode s.groups em))
    (hk' : s'.reports env r em' om' = true → Alone env.readPair s'.syncpoints (em', om') ∧
      (s'.mlatAdsb = true → Alone env.hexDecode s'.groups em')) :
    SameContent env (s.onSync env now r et ot em om at')
      (s'.onSync env now r et ot em' om' at') := by
  have hd : decodeSync env em' om' = decodeSync env em om := by
    unfold decodeSync
    rw [hem, hom]
  have hadsb : s'.mlatAdsb = s.mlatAdsb := by
    rw [h.rest]
    rfl
  have hinfo : s'.receiver r.idx = s.receiver r.idx := by
    rw [h.rest]
    rfl
  have hkey : env.readPair (em', om') = env.readPair (em, om) := Prod.ext hem hom
  unfold reports at hk hk'
  rw [h.live, hd, hadsb] at hk'
  unfold State.onSync
  rw [h.live, hd]
  cases hl : s.live r with
  | false => exact h
  | true =>
    cases hdec : decodeSync env em om with
    | none => exact h
    | some d =>
      obtain ⟨de, do'⟩ := d
      have hnote := h.blind (f := fun s => s.noteSync r.idx de.icao at') fun _ _ _ => rfl
      simp only [Bool.not_true, Bool.false_eq_true, if_false]
      cases hp : syncPositions (F := F) de do' with
      | none => exact hnote
      | some q =>
        obtain ⟨pe, po⟩ := q
        rw [hl, hdec, Option.any_some, hp] at hk hk'
        have hpos := hnote.blind (f := fun s => s.notePosition de pe at') fun _ _ _ => rfl
        have hinfo' : (s'.noteSync r.idx de.icao at').receiver r.idx =
          (s.noteSync r.idx de.icao at').receiver r.idx := hinfo
        have hadsb' : ((s'.noteSync r.idx de.icao at').notePosition de pe at').mlatAdsb =
          ((s.noteSync r.idx de.icao at').notePosition de pe at').mlatAdsb := hadsb
        simp only
        rw [hinfo', hadsb']
        split
        · next ha =>
          refine (hpos.onMlat now r et at' hem (fun _ _ => (hk rfl).2 ha)
            fun _ _ => (hk' rfl).2 ha).trainSync now r.idx de.icao _ _ hkey ?_ ?_
          · rw [onMlat_syncpoints]
            exact (hk rfl).1
          · rw [onMlat_syncpoints]
            exact (hk' rfl).1
        · exact hpos.trainSync now r.idx de.icao _ _ hkey (hk rfl).1 (hk' rfl).1

/-! ## Sweeps -/

theorem expireSyncpoints (h : SameContent env s s') (now : Instant) :
    SameContent env (s.expireSyncpoints now) (s'.expireSyncpoints now) where
  rest := by
    have hr := h.rest
    rw [hr]
    rfl
  syncpoints := by
    have h1 := h.syncpoints.retain fun sp : SyncPoint F =>
      decide (F64.ofNanos (now.since sp.created) < (syncpointLifeS : F))
    exact h1
  groups := h.groups

theorem expireIfDue (h : SameContent env s s') (now : Instant) :
    SameContent env (s.expireIfDue now) (s'.expireIfDue now) :=
  h.blind (f := fun s => s.expireIfDue now) fun s sps gs => expireIfDue_rekeyed s sps gs now

/-- A group taken out of both states is solved alike. -/
theorem solveReady (h : SameContent env s s') {clk : String → ℕ → Instant} {m m' : String}
    (hm : env.hexDecode m' = env.hexDecode m) (hclk : clk m' = clk m)
    (hk : Alone env.hexDecode s.groups m) (hk' : Alone env.hexDecode s'.groups m') :
    SameContent env (s.solveReady env clk m).1 (s'.solveReady env clk m').1 ∧
      (s'.solveReady env clk m').2 = (s.solveReady env clk m).2 := by
  have hl := h.groups.lookup_eq hm hk hk'
  cases hg : s.groups.lookup m with
  | none =>
    unfold State.solveReady
    rw [hl, hg]
    exact ⟨h, rfl⟩
  | some g =>
    have hg' : s'.groups.lookup m' = some g := hl.trans hg
    have htake : SameContent env (s.takeGroup m) (s'.takeGroup m') :=
      ⟨by
        have hr := h.rest
        rw [hr]
        rfl, h.syncpoints, h.groups.erase hm (mem_iff.2 ⟨g, hg⟩) (mem_iff.2 ⟨g, hg'⟩)⟩
    rw [solveReady_some env clk hg, solveReady_some env clk hg', hclk]
    refine ⟨htake.blind (f := fun s => (s.solveGroup env (clk m) g).1) fun s sps gs =>
      congrArg Prod.fst (solveGroup_rekeyed s sps gs env (clk m) g), ?_⟩
    rw [htake.rest, solveGroup_rekeyed]

/-- Groups taken out of both states in one order are solved alike. -/
theorem solveAllReady (h : SameContent env s s') {clk : String → ℕ → Instant}
    {ms ms' : List String} (hms : List.Forall₂ (fun m m' => env.hexDecode m' = env.hexDecode m ∧
      clk m' = clk m) ms ms') (hk : ∀ m ∈ ms, Alone env.hexDecode s.groups m)
    (hk' : ∀ m ∈ ms', Alone env.hexDecode s'.groups m) :
    SameContent env (State.solveAllReady env clk s ms).1 (State.solveAllReady env clk s' ms').1 ∧
      (State.solveAllReady env clk s' ms').2 = (State.solveAllReady env clk s ms).2 := by
  induction ms generalizing s s' ms' with
  | nil =>
    cases hms
    exact ⟨h, rfl⟩
  | cons m ms ih =>
    cases hms with
    | @cons _ m' _ ms' hm hms =>
      obtain ⟨h1, hout⟩ := h.solveReady hm.1 hm.2 (hk m List.mem_cons_self)
        (hk' m' List.mem_cons_self)
      have hrest := ih h1 hms
        (fun j hj => (hk j (List.mem_cons_of_mem m hj)).mono fun _ => mem_of_mem_solveReady)
        fun j hj => (hk' j (List.mem_cons_of_mem m' hj)).mono fun _ => mem_of_mem_solveReady
      unfold State.solveAllReady
      simp only
      exact ⟨hrest.1, by rw [hout, hrest.2]⟩

omit [F64 F] in
/-- Both states have the same groups to solve, in the order of their content. -/
theorem readyGroups (h : SameContent env s s') (now : Instant) (window : ℕ) {rank : String → ℕ}
    (hrank : ∀ m m', rank m' = rank m ↔ env.hexDecode m' = env.hexDecode m) :
    List.Forall₂ (fun m m' => rank m' = rank m) (s.readyGroups now window rank)
      (s'.readyGroups now window rank) := by
  have hinj {t : State F} (ht : OneSpelling env.hexDecode t.groups) :
      ((t.readyGroups now window rank).map rank).Nodup :=
    (t.readyGroups_nodup now window rank).map_on fun a ha b hb hab =>
      ht a (mem_of_mem_readyGroups ha) b (mem_of_mem_readyGroups hb) ((hrank b a).1 hab)
  have hforth {t t' : State F} (ht : Spelt env.hexDecode t.groups t'.groups) (n : ℕ)
      (hn : n ∈ (t.readyGroups now window rank).map rank) :
      n ∈ (t'.readyGroups now window rank).map rank := by
    obtain ⟨m, hm, rfl⟩ := List.mem_map.1 hn
    have hmem := mem_of_mem_readyGroups hm
    obtain ⟨g, hg⟩ := mem_iff.1 hmem
    obtain ⟨m', hmm, hg'⟩ := ht.forth m g hg
    refine List.mem_map.2 ⟨m', ?_, (hrank m m').2 hmm⟩
    rw [mem_readyGroups, ht.lookup_eq_of_mem hmm hmem (mem_iff.2 ⟨g, hg'⟩)]
    exact mem_readyGroups.1 hm
  exact forall₂_of_ranked (s.readyGroups_pairwise now window rank)
    (s'.readyGroups_pairwise now window rank) (hinj h.groups.left) (hinj h.groups.right)
    fun n => ⟨hforth h.groups n, hforth h.groups.symm n⟩

theorem sweep (h : SameContent env s s') (now : Instant) (window : ℕ) {rank : String → ℕ}
    {clk : String → ℕ → Instant}
    (hrank : ∀ m m', rank m' = rank m ↔ env.hexDecode m' = env.hexDecode m)
    (hclk : ∀ m m', env.hexDecode m' = env.hexDecode m → clk m' = clk m) :
    SameContent env (s.sweep env now window rank clk).1 (s'.sweep env now window rank clk).1 ∧
      (s'.sweep env now window rank clk).2 = (s.sweep env now window rank clk).2 := by
  have h1 := (h.expireSyncpoints now).expireIfDue now
  exact h1.solveAllReady ((h1.readyGroups now window hrank).imp fun m m' hm =>
      ⟨(hrank m m').1 hm, hclk m m' ((hrank m m').1 hm)⟩)
    (fun m hm => h1.groups.left.alone (mem_of_mem_readyGroups hm))
    fun m hm => h1.groups.right.alone (mem_of_mem_readyGroups hm)

end SameContent

end State

end Mlatd
