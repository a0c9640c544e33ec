/-
  The output task (main.rs): the shards' rows, gated by territory and freed of boundary twins.

  The task takes the rows of all shards in the order they reach its queue, each against the
  router as it stands then. It remembers the keys of the last `maxRecent` rows it published, an
  address and a bucket of stamps, and drops a row whose key it remembers. `twins_once_iff` says
  what that is worth: the memory is always the keys of the last rows, and twins are published once
  exactly in the streams where no row meets a twin across the edge of a bucket.
-/
import Mlatd.Lib.Run
import Mlatd.Lib.Vec
import Mlatd.Router
import Mlatd.State.Basic

namespace Mlatd

variable {F : Type} [F64 F]

/-- A published row as it is remembered: the address and the bucket of 100 ms. -/
abbrev TwinKey := UInt32 × ℤ

/-- `(row.icao.0, (row.stamp * 10.0) as i64)` -/
def OutRow.key (row : OutRow F) : TwinKey := (row.icao.val, F64.asI64 (row.stamp * (10.0 : F)))

/-- The most keys remembered. -/
def maxRecent : ℕ := 4096

/-- The files the task was started with. -/
structure OutFiles where
  csv : Bool
  filtered : Bool
  selfTruth : Bool

/-- What the task writes and broadcasts. -/
inductive Written where
  | csv (line : String)
  | filtered (line : String)
  | selfTruth (line : String)
  | publish (p : Published)

/-- What a client hears of it. -/
def Written.broadcast : Written → Option Published
  | .publish p => some p
  | _ => none

/-- The keys of the rows published last: a set to look up, a queue to forget by. -/
structure TwinMemory where
  recent : HashMap TwinKey Unit
  order : List TwinKey

namespace TwinMemory

def empty : TwinMemory := ⟨∅, []⟩

/-- The oldest keys forgotten until `maxRecent` are left. -/
def forget : List TwinKey → HashMap TwinKey Unit → TwinMemory
  | k :: ks, recent =>
    if maxRecent < (k :: ks).length then forget ks (recent.erase k) else ⟨recent, k :: ks⟩
  | [], recent => ⟨recent, []⟩

def remember (m : TwinMemory) (k : TwinKey) : TwinMemory :=
  forget (m.order ++ [k]) (m.recent.insert k ())

/-- The row is published: by the owner of its position, under a key not remembered. -/
def publishes (m : TwinMemory) (r : Router F) (row : OutRow F) : Bool :=
  r.mayPublish row.shard (row.lat, row.lon) && !(m.recent.lookup row.key).isSome

/-- One message of a shard handled. -/
def step (files : OutFiles) (m : TwinMemory) (r : Router F) : OutMsg F → TwinMemory × List Written
  | .selfTruth line => (m, if files.selfTruth then [.selfTruth line] else [])
  | .fix row =>
    if m.publishes r row then
      (m.remember row.key,
        (if files.csv then [.csv row.csvLine] else []) ++
          (if files.filtered then (row.filteredLine.map Written.filtered).toList else []) ++
            [.publish row.published])
    else (m, [])

end TwinMemory

/-! ## The memory -/

namespace TwinMemory

/-- The set and the queue hold the same keys, each once, and not too many. -/
structure Sound (m : TwinMemory) : Prop where
  same : ∀ k, (m.recent.lookup k).isSome ↔ k ∈ m.order
  nodup : m.order.Nodup
  bounded : m.order.length ≤ maxRecent

theorem empty_sound : Sound empty where
  same k := by simp [empty]
  nodup := List.nodup_nil
  bounded := Nat.zero_le _

theorem forget_order (ks : List TwinKey) (recent : HashMap TwinKey Unit) :
    (forget ks recent).order = ks.lastN maxRecent := by
  induction ks generalizing recent with
  | nil => rfl
  | cons k ks ih =>
    unfold forget
    split
    · next h => rw [ih, List.lastN_cons_of_lt h]
    · next h => rw [List.lastN_of_le (by omega)]

theorem forget_same {ks : List TwinKey} {recent : HashMap TwinKey Unit} (hn : ks.Nodup)
    (h : ∀ k, (recent.lookup k).isSome ↔ k ∈ ks) (k : TwinKey) :
    ((forget ks recent).recent.lookup k).isSome ↔ k ∈ (forget ks recent).order := by
  induction ks generalizing recent with
  | nil => exact h k
  | cons k' ks ih =>
    unfold forget
    split
    · refine ih hn.of_cons fun x => ?_
      rw [Finmap.lookup_erase_ite]
      split
      · next hx =>
        rw [hx]
        simp [(List.nodup_cons.1 hn).1]
      · next hx => rw [h, List.mem_cons, or_iff_right hx]
    · exact h k

theorem remember_order (m : TwinMemory) (k : TwinKey) :
    (m.remember k).order = (m.order ++ [k]).lastN maxRecent :=
  forget_order _ _

/-- A key remembered that was not: the oldest may go. -/
theorem remember_sound {m : TwinMemory} (hm : m.Sound) {k : TwinKey} (hk : k ∉ m.order) :
    (m.remember k).Sound := by
  have hn : (m.order ++ [k]).Nodup := by
    rw [List.nodup_append]
    refine ⟨hm.nodup, List.nodup_singleton k, fun a ha b hb hab => hk ?_⟩
    rw [← List.mem_singleton.1 hb, ← hab]
    exact ha
  refine ⟨forget_same hn fun x => ?_, ?_, ?_⟩
  · rw [Finmap.lookup_insert_ite, List.mem_append, List.mem_singleton]
    split
    · next h => simp [h]
    · next h => rw [hm.same, or_iff_left h]
  · rw [remember_order]
    exact hn.sublist (List.lastN_sublist _ _)
  · rw [remember_order]
    exact List.length_lastN_le _ _

/-- A published row's key was not in the queue. -/
theorem not_mem_of_publishes {m : TwinMemory} (hm : m.Sound) {r : Router F} {row : OutRow F}
    (h : m.publishes r row = true) : row.key ∉ m.order := by
  unfold publishes at h
  intro hk
  rw [← hm.same] at hk
  simp [hk] at h

end TwinMemory

/-! ## A run of the task -/

/-- The task after some messages: its memory, and beside it the rows published so far, oldest
    first. -/
structure OutTask (F : Type) where
  memory : TwinMemory
  published : List (OutRow F)

namespace OutTask

def start : OutTask F := ⟨TwinMemory.empty, []⟩

/-- A message handled against the router as it stands. -/
def step (files : OutFiles) (t : OutTask F) (e : Router F × OutMsg F) : OutTask F where
  memory := (t.memory.step files e.1 e.2).1
  published := match e.2 with
    | .fix row => if t.memory.publishes e.1 row then t.published ++ [row] else t.published
    | .selfTruth _ => t.published

/-- The rows whose keys are remembered. -/
def recentRows (t : OutTask F) : List (OutRow F) := t.published.lastN maxRecent

/-- Two rows of one aircraft less than 100 ms apart. -/
def Twins (a b : OutRow F) : Prop := a.icao = b.icao ∧ F64.abs (a.stamp - b.stamp) < (0.1 : F)

/-- No two twins are published with fewer than `maxRecent` rows between them. -/
def TwinsOnce (rows : List (OutRow F)) : Prop :=
  ∀ i j a b, i < j → rows[i]? = some a → rows[j]? = some b → Twins a b → maxRecent ≤ j - i - 1

/-- A row that its territory's owner sends, in a bucket not remembered, has no twin in another
    bucket among the rows remembered. -/
def NoTwinAcrossEdge (t : OutTask F) (e : Router F × OutMsg F) : Prop :=
  ∀ row, e.2 = .fix row → e.1.mayPublish row.shard (row.lat, row.lon) = true →
    row.key ∉ t.memory.order → ∀ a ∈ t.recentRows, a.key ≠ row.key → ¬ Twins a row

end OutTask

namespace OutTask

variable {files : OutFiles}

/-- What a message does: nothing, or one row published and its key remembered. -/
theorem step_cases (files : OutFiles) (t : OutTask F) (e : Router F × OutMsg F) :
    (∃ row, e.2 = .fix row ∧ t.memory.publishes e.1 row = true ∧
      step files t e = ⟨t.memory.remember row.key, t.published ++ [row]⟩) ∨
    ((∀ row, e.2 = .fix row → t.memory.publishes e.1 row = false) ∧ step files t e = t) := by
  obtain ⟨r, m⟩ := e
  cases m with
  | selfTruth line => exact Or.inr ⟨nofun, rfl⟩
  | fix row =>
    unfold step TwinMemory.step
    by_cases h : t.memory.publishes r row = true
    · simp only [if_pos h]
      exact Or.inl ⟨row, rfl, h, rfl⟩
    · simp only [if_neg h]
      refine Or.inr ⟨fun row' h' => ?_, trivial⟩
      cases h'
      exact Bool.eq_false_iff.2 h

theorem step_publishes {t : OutTask F} {r : Router F} {row : OutRow F}
    (h : t.memory.publishes r row = true) :
    step files t (r, .fix row) = ⟨t.memory.remember row.key, t.published ++ [row]⟩ := by
  rcases step_cases files t (r, .fix row) with ⟨row', he, -, hs⟩ | ⟨hn, -⟩
  · cases he
    exact hs
  · rw [hn row rfl] at h
    cases h

/-- The rows broadcast are the rows published. -/
theorem step_written (t : OutTask F) (e : Router F × OutMsg F) :
    (step files t e).published.map OutRow.published = t.published.map OutRow.published ++
      (t.memory.step files e.1 e.2).2.filterMap Written.broadcast := by
  obtain ⟨r, m⟩ := e
  cases m with
  | selfTruth line =>
    cases h : files.selfTruth <;> simp [step, TwinMemory.step, h, Written.broadcast]
  | fix row =>
    unfold step TwinMemory.step
    by_cases h : t.memory.publishes r row = true
    · cases files.csv <;> cases files.filtered <;> cases row.filteredLine <;>
        simp [h, List.filterMap_cons, Written.broadcast]
    · simp [h]

/-! ## The invariant -/

/-- The memory is sound, and holds the keys of the last rows published. -/
structure Remembers (t : OutTask F) : Prop where
  sound : t.memory.Sound
  order : t.memory.order = t.recentRows.map OutRow.key

theorem start_remembers : Remembers (start : OutTask F) :=
  ⟨TwinMemory.empty_sound, by simp [start, TwinMemory.empty, recentRows, List.lastN]⟩

theorem step_remembers (t : OutTask F) (e : Router F × OutMsg F) (h : Remembers t) :
    Remembers (step files t e) := by
  rcases step_cases files t e with ⟨row, -, hp, hs⟩ | ⟨-, hs⟩
  · rw [hs]
    refine ⟨TwinMemory.remember_sound h.sound (TwinMemory.not_mem_of_publishes h.sound hp), ?_⟩
    have horder := h.order
    unfold recentRows at horder
    calc (t.memory.remember row.key).order
        = ((t.published.map OutRow.key).lastN maxRecent ++ [row.key]).lastN maxRecent := by
          rw [TwinMemory.remember_order, horder, List.map_lastN]
      _ = (t.published.map OutRow.key ++ [row.key]).lastN maxRecent :=
          (List.lastN_concat _ _ _).symm
      _ = ((t.published ++ [row]).lastN maxRecent).map OutRow.key := by
          rw [List.map_lastN, List.map_append, List.map_singleton]
  · rw [hs]
    exact h

/-! ## Twins -/

/-- One more row keeps twins apart exactly when it has none among the last. -/
theorem twinsOnce_concat {rows : List (OutRow F)} (h : TwinsOnce rows) (row : OutRow F) :
    TwinsOnce (rows ++ [row]) ↔ ∀ a ∈ rows.lastN maxRecent, ¬ Twins a row := by
  constructor
  · intro h1 a ha ht
    obtain ⟨i, hi, hget⟩ := List.mem_lastN_iff.1 ha
    obtain ⟨hlt, -⟩ := List.getElem?_eq_some_iff.1 hget
    have h2 := h1 i rows.length a row hlt (by rw [List.getElem?_append_left hlt]; exact hget)
      List.getElem?_concat_length ht
    omega
  · intro h1 i j a b hij ha hb ht
    obtain ⟨hj, -⟩ := List.getElem?_eq_some_iff.1 hb
    rw [List.length_append, List.length_singleton] at hj
    rw [List.getElem?_append_left (by omega)] at ha
    rcases Nat.lt_or_ge j rows.length with hlt | hge
    · rw [List.getElem?_append_left hlt] at hb
      exact h i j a b hij ha hb ht
    · obtain rfl : j = rows.length := by omega
      rw [List.getElem?_concat_length] at hb
      obtain rfl : row = b := Option.some.inj hb
      by_contra hlt
      exact h1 a (List.mem_lastN_iff.2 ⟨i, by omega, ha⟩) ht

theorem step_twinsOnce_iff {t : OutTask F} (hr : Remembers t) (h : TwinsOnce t.published)
    (e : Router F × OutMsg F) :
    TwinsOnce (step files t e).published ↔ NoTwinAcrossEdge t e := by
  -- a remembered row in the row's own bucket would have kept it back
  have hkey : ∀ row : OutRow F, row.key ∉ t.memory.order → ∀ a ∈ t.recentRows,
      a.key ≠ row.key := by
    intro row hrow a ha hk
    rw [hr.order, ← hk] at hrow
    exact hrow (List.mem_map_of_mem ha)
  rcases step_cases files t e with ⟨row, he, hp, hs⟩ | ⟨hp, hs⟩
  · rw [hs]
    show TwinsOnce (t.published ++ [row]) ↔ _
    rw [twinsOnce_concat h]
    have hnot := TwinMemory.not_mem_of_publishes hr.sound hp
    constructor
    · intro h1 row' he' _ _ a ha _
      obtain rfl : row = row' := by
        rw [he] at he'
        cases he'
        rfl
      exact h1 a ha
    · intro h1 a ha
      have hmay : e.1.mayPublish row.shard (row.lat, row.lon) = true := by
        unfold TwinMemory.publishes at hp
        exact (Bool.and_eq_true_iff.1 hp).1
      exact h1 row he hmay hnot a ha (hkey row hnot a ha)
  · rw [hs]
    refine iff_of_true h fun row he hmay hnot => ?_
    have h1 := hp row he
    unfold TwinMemory.publishes at h1
    rw [hmay, Bool.true_and, Bool.not_eq_false', hr.sound.same] at h1
    exact absurd h1 hnot

/-- **The memory of published keys is always sound, and twins are published once** in exactly the
    streams whose rows meet no twin across the edge of a bucket. -/
theorem twins_once_iff (files : OutFiles) (es : List (Router F × OutMsg F)) :
    (∀ n, (Run.exec (step files) start (es.take n)).memory.Sound) ∧
      ((∀ n, TwinsOnce (Run.exec (step files) start (es.take n)).published) ↔
        Run.Steps (step files) NoTwinAcrossEdge start es) := by
  constructor
  · intro n
    exact (Run.invariant step_remembers start_remembers (es.take n)).sound
  · exact Run.forall_take_iff_steps (A := fun _ => True) (fun t e _ hr _ _ => step_remembers t e hr)
      (fun t e _ hr h => step_twinsOnce_iff hr h e) start_remembers
      (fun i j a b _ ha _ _ => by cases ha) fun _ _ => trivial

/-! ## An edge between twins -/

/-- Truncation moves numbers less than one apart to neighbouring integers. -/
theorem trunc_le_succ {x y : ℚ} (h : x - y < 1) : F64.trunc x ≤ F64.trunc y + 1 := by
  show (if 0 ≤ x then ⌊x⌋ else ⌈x⌉) ≤ (if 0 ≤ y then ⌊y⌋ else ⌈y⌉) + 1
  have hx := Int.floor_le x
  have hy := Int.lt_floor_add_one y
  have hx' := Int.ceil_lt_add_one x
  have hy' := Int.le_ceil y
  split
  · split
    · have h1 : (⌊x⌋ : ℚ) < ⌊y⌋ + 2 := by linarith
      have h2 : ⌊x⌋ < ⌊y⌋ + 2 := by exact_mod_cast h1
      omega
    · have h1 : (⌊x⌋ : ℚ) < ⌈y⌉ + 1 := by linarith
      have h2 : ⌊x⌋ < ⌈y⌉ + 1 := by exact_mod_cast h1
      omega
  · next hneg =>
    split
    · next hpos =>
      have h1 : ⌈x⌉ ≤ 0 := Int.ceil_nonpos.2 (not_le.1 hneg).le
      have h2 : 0 ≤ ⌊y⌋ := Int.floor_nonneg.2 hpos
      omega
    · have h1 : (⌈x⌉ : ℚ) < ⌈y⌉ + 2 := by linarith
      have h2 : ⌈x⌉ < ⌈y⌉ + 2 := by exact_mod_cast h1
      omega

/-- The twin of a row is in the row's bucket or in the next one, over exact arithmetic. -/
theorem twin_bucket {a b : OutRow ℚ} (h : Twins a b) :
    a.key.2 ≤ b.key.2 + 1 ∧ b.key.2 ≤ a.key.2 + 1 := by
  have h1 : |a.stamp - b.stamp| < 0.1 := h.2
  rw [abs_lt] at h1
  norm_num at h1
  have hab : F64.trunc (a.stamp * 10.0) ≤ F64.trunc (b.stamp * 10.0) + 1 := by
    apply trunc_le_succ
    norm_num
    linarith
  have hba : F64.trunc (b.stamp * 10.0) ≤ F64.trunc (a.stamp * 10.0) + 1 := by
    apply trunc_le_succ
    norm_num
    linarith
  unfold OutRow.key F64.asI64 F64.saturate
  omega

/-- A row of one aircraft, at a point nobody owns. -/
def borderRow (shard : ℕ) (stamp : ℚ) : OutRow ℚ :=
  { shard := shard, lat := 1, lon := 1, icao := ⟨0x3c6444⟩, stamp := stamp, csvLine := ""
    filteredLine := none, published := ⟨"", "", []⟩ }

/-- Two shards that share the map. -/
def twoShards : Router ℚ := Router.new [⟨1, 0⟩, ⟨1, 0⟩] 8 64

/-- Two shards solve one transmission, 2 ms apart in stamp. -/
def edgeTwins : List (Router ℚ × OutMsg ℚ) :=
  [(twoShards, .fix (borderRow 0 1.099)), (twoShards, .fix (borderRow 1 1.101))]

theorem edgeTwins_published (files : OutFiles) :
    (Run.exec (step files) start edgeTwins).published = [borderRow 0 1.099, borderRow 1 1.101] := by
  have h1 : TwinMemory.empty.publishes twoShards (borderRow 0 1.099) = true := by decide +kernel
  have h2 : (TwinMemory.empty.remember (borderRow 0 1.099).key).publishes twoShards
      (borderRow 1 1.101) = true := by decide +kernel
  unfold edgeTwins
  rw [Run.exec_cons, step_publishes (t := start) h1, Run.exec_cons, step_publishes h2]
  rfl

/-- Their buckets differ: both are published. -/
theorem twins_either_side :
    ¬ ∀ n, TwinsOnce (Run.exec (step ⟨true, false, false⟩) start (edgeTwins.take n)).published := by
  intro h
  have h1 := h 2
  rw [show edgeTwins.take 2 = edgeTwins from rfl, edgeTwins_published] at h1
  exact absurd (h1 0 1 _ _ (by decide) rfl rfl ⟨rfl, by decide +kernel⟩) (by decide)

end OutTask

end Mlatd
