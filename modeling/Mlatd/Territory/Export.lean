/-
  partition.json (shard.rs, partition_dump; main.rs, the work-dir export): the cell map as boxes for
  whoever draws it.

  The boxes of the cells that shards own nest where they meet, and a split cell stays listed under
  its children. `partition_exported`: over every run of calls, a position belongs to the shard of
  the finest box around it, or to none when no box is around it; no cell is listed twice; and the
  counts of all boxes add up to the receivers ever placed.
-/
import Mathlib.Algebra.BigOperators.Group.Finset.Piecewise
import Mathlib.Data.Finset.Sort
import Mlatd.Territory.Cells

namespace CellTree

variable {P K O : Type} [DecidableEq K] {cell : ℕ → P → K} {owner : HashMap K O} {p : P}

/-- The owner that a search finds is that of the deepest owned cell. -/
theorem ownerFrom_eq_some_iff {n : ℕ} {o : O} : ownerFrom cell owner p n = some o ↔
    ∃ l ≤ n, owner.lookup (cell l p) = some o ∧
      ∀ m, l < m → m ≤ n → owner.lookup (cell m p) = none := by
  induction n with
  | zero =>
    constructor
    · intro h
      exact ⟨0, le_rfl, h, fun m h1 h2 => by omega⟩
    · rintro ⟨l, hl, h, -⟩
      obtain rfl : l = 0 := by omega
      exact h
  | succ n ih =>
    unfold ownerFrom
    cases hlast : owner.lookup (cell (n + 1) p) with
    | some o' =>
      constructor
      · intro h
        cases h
        exact ⟨n + 1, le_rfl, hlast, fun m h1 h2 => by omega⟩
      · rintro ⟨l, hl, h, hdeep⟩
        rcases Nat.lt_or_ge l (n + 1) with hlt | hge
        · rw [hdeep (n + 1) hlt le_rfl] at hlast
          cases hlast
        · obtain rfl : l = n + 1 := by omega
          rw [hlast] at h
          exact h
    | none =>
      rw [ih]
      constructor
      · rintro ⟨l, hl, h, hdeep⟩
        refine ⟨l, by omega, h, fun m h1 h2 => ?_⟩
        rcases Nat.lt_or_ge n m with hlt | hge
        · obtain rfl : m = n + 1 := by omega
          exact hlast
        · exact hdeep m h1 hge
      · rintro ⟨l, hl, h, hdeep⟩
        have hne : l ≠ n + 1 := by
          rintro rfl
          rw [hlast] at h
          cases h
        exact ⟨l, by omega, h, fun m h1 h2 => hdeep m h1 (by omega)⟩

/-- A search that finds no owner has seen no owned cell. -/
theorem ownerFrom_eq_none {n : ℕ} (h : ownerFrom cell owner p n = none) {l : ℕ} (hl : l ≤ n) :
    owner.lookup (cell l p) = none := by
  induction n with
  | zero =>
    obtain rfl : l = 0 := by omega
    exact h
  | succ n ih =>
    unfold ownerFrom at h
    split at h
    · cases h
    · next hlast =>
      rcases Nat.lt_or_ge n l with hlt | hge
      · obtain rfl : l = n + 1 := by omega
        exact hlast
      · exact ih h hge

end CellTree

namespace Mlatd

variable {F : Type} [F64 F]

namespace Router

/-- How tuples compare. -/
def dumpKey (k : CellKey) : ℕ ×ₗ ℤ ×ₗ ℤ := toLex (k.1, toLex (k.2.1, k.2.2))

/-- The cell of a place in the order. -/
def ofDumpKey (k : ℕ ×ₗ ℤ ×ₗ ℤ) : CellKey :=
  ((ofLex k).1, (ofLex (ofLex k).2).1, (ofLex (ofLex k).2).2)

/-- Cell, owner, and receivers assigned through the cell, sorted. -/
def partitionDump (r : Router F) : List (CellKey × ℕ × ℕ) :=
  ((r.map.owner.keys.image dumpKey).sort (· ≤ ·)).map fun d =>
    (ofDumpKey d, (r.map.owner.lookup (ofDumpKey d)).getD 0,
      (r.map.rxCount.lookup (ofDumpKey d)).getD 0)

/-- An entry of partition.json. -/
structure CellEntry (F : Type) where
  level : ℕ
  lat0 : F
  lat1 : F
  lon0 : F
  lon1 : F
  shard : ℕ
  rx : ℕ

def cellEntry (baseDeg : F) : CellKey × ℕ × ℕ → CellEntry F
  | ((level, y, x), shard, rx) =>
    let size := cellSize baseDeg level
    { level := level
      lat0 := F64.ofInt y * size
      lat1 := (F64.ofInt y + 1.0) * size
      lon0 := F64.ofInt x * size
      lon1 := (F64.ofInt x + 1.0) * size
      shard := shard
      rx := rx }

/-- partition.json. -/
def partitionJson (r : Router F) : List (CellEntry F) := r.partitionDump.map (cellEntry r.baseDeg)

/-- The point is in the box. -/
def CellEntry.Around (c : CellEntry ℚ) (p : ℚ × ℚ) : Prop :=
  (c.lat0 ≤ p.1 ∧ p.1 < c.lat1) ∧ c.lon0 ≤ p.2 ∧ p.2 < c.lon1

/-! ## The cells listed -/

theorem ofDumpKey_dumpKey (k : CellKey) : ofDumpKey (dumpKey k) = k := rfl

theorem dumpKey_injective : Function.Injective dumpKey :=
  Function.LeftInverse.injective ofDumpKey_dumpKey

omit [F64 F] in
theorem mem_partitionDump {r : Router F} {k : CellKey} {i n : ℕ} :
    (k, i, n) ∈ r.partitionDump ↔
      r.map.owner.lookup k = some i ∧ n = (r.map.rxCount.lookup k).getD 0 := by
  unfold partitionDump
  rw [List.mem_map]
  constructor
  · rintro ⟨d, hd, heq⟩
    rw [Finset.mem_sort, Finset.mem_image] at hd
    obtain ⟨k', hk', rfl⟩ := hd
    rw [ofDumpKey_dumpKey] at heq
    obtain rfl : k' = k := congrArg Prod.fst heq
    obtain ⟨o, ho⟩ := Finmap.mem_iff.1 (Finmap.mem_keys.1 hk')
    rw [ho] at heq
    cases heq
    exact ⟨ho, rfl⟩
  · rintro ⟨hi, rfl⟩
    refine ⟨dumpKey k, ?_, ?_⟩
    · rw [Finset.mem_sort, Finset.mem_image]
      exact ⟨k, Finmap.mem_keys.2 (Finmap.mem_iff.2 ⟨i, hi⟩), rfl⟩
    · rw [ofDumpKey_dumpKey, hi]
      rfl

omit [F64 F] in
/-- No cell is listed twice. -/
theorem partitionDump_nodup (r : Router F) : (r.partitionDump.map Prod.fst).Nodup := by
  unfold partitionDump
  rw [List.map_map]
  refine List.Nodup.map_on (fun a ha b hb hab => ?_) (Finset.sort_nodup _ _)
  rw [Finset.mem_sort, Finset.mem_image] at ha hb
  obtain ⟨k, -, rfl⟩ := ha
  obtain ⟨k', -, rfl⟩ := hb
  exact congrArg dumpKey hab

/-! ## The receivers counted -/

/-- The receivers placed through owned cells. -/
def placed (r : Router F) : ℕ := ∑ k ∈ r.map.owner.keys, (r.map.rxCount.lookup k).getD 0

omit [F64 F] in
theorem sum_partitionDump (r : Router F) :
    (r.partitionDump.map fun c => c.2.2).sum = r.placed := by
  unfold partitionDump placed
  rw [List.map_map, ← List.sum_toFinset _ (Finset.sort_nodup _ _), Finset.sort_toFinset,
    Finset.sum_image dumpKey_injective.injOn]
  rfl

/-- Only owned cells have a count. -/
def Counted (r : Router F) : Prop := ∀ k, k ∈ r.map.rxCount → k ∈ r.map.owner

/-- A call counts one receiver more. -/
theorem placed_shardFor {r : Router ℚ} (h : Counted r) (p : ℚ × ℚ) (rank : ℕ → ℕ) :
    Counted (r.shardFor p rank).1 ∧ (r.shardFor p rank).1.placed = r.placed + 1 := by
  have howner : (r.shardFor p rank).1.map.owner =
      r.map.owner.insert (r.leafAt p) (r.chosen p rank) := claim_owner r p rank
  have hcount : (r.shardFor p rank).1.map.rxCount = r.map.rxCount.insert (r.leafAt p)
      ((r.map.rxCount.lookup (r.leafAt p)).getD 0 + 1) := rfl
  constructor
  · intro k hk
    rw [hcount, Finmap.mem_insert] at hk
    rw [howner, Finmap.mem_insert]
    exact hk.imp_right (h k)
  · have hkeys : (r.map.owner.insert (r.leafAt p) (r.chosen p rank)).keys =
        insert (r.leafAt p) r.map.owner.keys := by
      ext k
      rw [Finmap.mem_keys, Finmap.mem_insert, Finset.mem_insert, Finmap.mem_keys]
    have hterm (k : CellKey) : ((r.map.rxCount.insert (r.leafAt p)
          ((r.map.rxCount.lookup (r.leafAt p)).getD 0 + 1)).lookup k).getD 0 =
        (r.map.rxCount.lookup k).getD 0 + if k = r.leafAt p then 1 else 0 := by
      rw [Finmap.lookup_insert_ite]
      by_cases hk : k = r.leafAt p
      · rw [if_pos hk, if_pos hk, hk, Option.getD_some]
      · rw [if_neg hk, if_neg hk, add_zero]
    -- a leaf nobody owned has counted nobody
    have hnew : r.leafAt p ∉ r.map.owner.keys →
        (r.map.rxCount.lookup (r.leafAt p)).getD 0 = 0 := by
      intro hk
      rw [Finmap.mem_keys] at hk
      rw [Finmap.lookup_eq_none.2 fun hc => hk (h _ hc)]
      rfl
    unfold placed
    rw [howner, hcount, hkeys]
    simp only [hterm]
    rw [Finset.sum_add_distrib, Finset.sum_insert_of_eq_zero_if_notMem hnew,
      Finset.sum_ite_eq' _ (r.leafAt p) fun _ => 1, if_pos (Finset.mem_insert_self _ _)]

/-- The event places a receiver. -/
def Event.isCall : Event → Bool
  | .call _ _ => true
  | .load _ _ => false

theorem placed_exec {r : Router ℚ} (h : Counted r) (es : List Event) :
    (Run.exec step r es).placed = r.placed + es.countP Event.isCall := by
  induction es generalizing r with
  | nil => rfl
  | cons e es ih =>
    rw [Run.exec_cons, List.countP_cons]
    cases e with
    | call p rank =>
      obtain ⟨h1, h2⟩ := placed_shardFor h p.point rank
      rw [ih (r := step r (.call p rank)) h1]
      show (r.shardFor p.point rank).1.placed + _ = _
      rw [h2]
      show _ = r.placed + (es.countP Event.isCall + 1)
      omega
    | load shard hd => exact ih (r := step r (.load shard hd)) h

/-! ## The boxes -/

/-- The box of a cell is around the positions that the cell is around. -/
theorem around_iff {baseDeg : ℚ} {k : CellKey} {i n : ℕ} (hs : 1 ≤ cellSize baseDeg k.1)
    (p : Position) : (cellEntry baseDeg (k, i, n)).Around p.point ↔
      k = cellAt baseDeg k.1 p.point := by
  obtain ⟨⟨h1, h2⟩, h3, h4⟩ := p.bounds
  obtain ⟨level, y, x⟩ := k
  have hpos : 0 < cellSize baseDeg level := lt_of_lt_of_le zero_lt_one hs
  have hone : (1.0 : ℚ) = 1 := by norm_num
  have haxis (v : ℚ) (m : ℤ) :
      F64.ofInt m * cellSize baseDeg level ≤ v ∧ v < (F64.ofInt m + 1.0) * cellSize baseDeg level ↔
        m = ⌊v / cellSize baseDeg level⌋ := by
    show (m : ℚ) * _ ≤ v ∧ v < ((m : ℚ) + 1.0) * _ ↔ _
    rw [hone, eq_comm, Int.floor_eq_iff, le_div_iff₀ hpos, div_lt_iff₀ hpos]
  unfold CellEntry.Around cellEntry cellAt Position.point
  simp only [haxis, Prod.mk.injEq, true_and]
  rw [index_exact (by linarith) (by linarith) hs, index_exact h3 h4 hs]

theorem Partitioned.size_of_owned {r : Router ℚ} (h : Partitioned r) {k : CellKey} {i : ℕ}
    (hi : r.map.owner.lookup k = some i) : 1 ≤ cellSize r.baseDeg k.1 := by
  obtain ⟨p, level, rfl, hsize⟩ := h.around k i hi
  unfold minCellDeg at hsize
  norm_num at hsize
  show 1 ≤ cellSize r.baseDeg level
  linarith

/-- The boxes around a position are those of its owned cells. -/
theorem Partitioned.around_iff {r : Router ℚ} (h : Partitioned r) (p : Position)
    {c : CellEntry ℚ} : c ∈ r.partitionJson ∧ c.Around p.point ↔
      r.map.owner.lookup (cellAt r.baseDeg c.level p.point) = some c.shard ∧
        c = cellEntry r.baseDeg (cellAt r.baseDeg c.level p.point, c.shard,
          (r.map.rxCount.lookup (cellAt r.baseDeg c.level p.point)).getD 0) := by
  unfold partitionJson
  rw [List.mem_map]
  constructor
  · rintro ⟨⟨⟨k, i, n⟩, hmem, rfl⟩, hc⟩
    obtain ⟨hi, rfl⟩ := mem_partitionDump.1 hmem
    have hk := (Router.around_iff (h.size_of_owned hi) p).1 hc
    have hlevel : (cellEntry r.baseDeg (k, i, (r.map.rxCount.lookup k).getD 0)).level = k.1 := rfl
    have hshard : (cellEntry r.baseDeg (k, i, (r.map.rxCount.lookup k).getD 0)).shard = i := rfl
    rw [hlevel, hshard, ← hk]
    exact ⟨hi, rfl⟩
  · rintro ⟨hi, hc⟩
    refine ⟨⟨_, mem_partitionDump.2 ⟨hi, rfl⟩, hc.symm⟩, ?_⟩
    rw [hc]
    exact (Router.around_iff (h.size_of_owned hi) p).2 rfl

/-- Owned cells are leaves or above. -/
theorem Partitioned.level_le {r : Router ℚ} (h : Partitioned r) {q : ℚ × ℚ} {l i : ℕ}
    (hi : r.map.owner.lookup (cellAt r.baseDeg l q) = some i) : l ≤ r.leafLevel q := by
  by_contra hlt
  exact (CellTree.leaf_spec (cellAt_levelled r.baseDeg) r.map.split q).1
    (h.split_of_owned (not_le.1 hlt) hi)

/-- The finest box around a position is that of the shard it belongs to. -/
theorem Partitioned.finest_iff {r : Router ℚ} (h : Partitioned r) (p : Position) (i : ℕ) :
    r.ownerOfPoint p.point = some i ↔
      ∃ c ∈ r.partitionJson, c.Around p.point ∧ c.shard = i ∧
        ∀ c' ∈ r.partitionJson, c'.Around p.point → c'.level ≤ c.level := by
  refine Iff.trans CellTree.ownerFrom_eq_some_iff ?_
  constructor
  · rintro ⟨l, -, hi, hdeep⟩
    obtain ⟨hmem, haround⟩ := (h.around_iff p (c := cellEntry r.baseDeg
      (cellAt r.baseDeg l p.point, i,
        (r.map.rxCount.lookup (cellAt r.baseDeg l p.point)).getD 0))).2 ⟨hi, rfl⟩
    refine ⟨_, hmem, haround, rfl, fun c' hc' ha' => ?_⟩
    obtain ⟨hj, -⟩ := (h.around_iff p).1 ⟨hc', ha'⟩
    by_contra hlt
    rw [hdeep c'.level (not_le.1 hlt) (h.level_le hj)] at hj
    cases hj
  · rintro ⟨c, hc, hca, rfl, hfinest⟩
    obtain ⟨hi, -⟩ := (h.around_iff p).1 ⟨hc, hca⟩
    refine ⟨c.level, h.level_le hi, hi, fun m hm _ => ?_⟩
    cases hj : r.map.owner.lookup (cellAt r.baseDeg m p.point) with
    | none => rfl
    | some j =>
      obtain ⟨hmem, haround⟩ := (h.around_iff p (c := cellEntry r.baseDeg
        (cellAt r.baseDeg m p.point, j,
          (r.map.rxCount.lookup (cellAt r.baseDeg m p.point)).getD 0))).2 ⟨hj, rfl⟩
      exact absurd (hfinest _ hmem haround) (not_le.2 hm)

/-- No box is around a position that nobody owns. -/
theorem Partitioned.none_iff {r : Router ℚ} (h : Partitioned r) (p : Position) :
    r.ownerOfPoint p.point = none ↔ ∀ c ∈ r.partitionJson, ¬ c.Around p.point := by
  constructor
  · intro hnone c hc hca
    obtain ⟨hi, -⟩ := (h.around_iff p).1 ⟨hc, hca⟩
    rw [CellTree.ownerFrom_eq_none hnone (h.level_le hi)] at hi
    cases hi
  · intro hno
    cases hi : r.ownerOfPoint p.point with
    | none => rfl
    | some i =>
      obtain ⟨c, hc, hca, -⟩ := (h.finest_iff p i).1 hi
      exact absurd hca (hno c hc)

/-! ## The export of a run -/

/-- What partition.json says of the router. -/
structure Exported (r : Router ℚ) : Prop where
  finest : ∀ (p : Position) (i : ℕ), r.ownerOfPoint p.point = some i ↔
    ∃ c ∈ r.partitionJson, c.Around p.point ∧ c.shard = i ∧
      ∀ c' ∈ r.partitionJson, c'.Around p.point → c'.level ≤ c.level
  nobody : ∀ p : Position, r.ownerOfPoint p.point = none ↔
    ∀ c ∈ r.partitionJson, ¬ c.Around p.point
  once : (r.partitionDump.map Prod.fst).Nodup

/-- **partition.json is the partition.** For a base cell of 2 degrees or more and at least one
    shard, after any run of calls and moving loads: a position belongs to the shard of the finest
    box around it, or to nobody when there is none; no cell is listed twice; and the counts of the
    boxes add up to the receivers placed so far. -/
theorem partition_exported {shards : List ShardHandle} (hs : shards ≠ []) {baseDeg : ℚ}
    (hb : minCellDeg ≤ baseDeg) (cap : ℕ) (es : List Event) (n : ℕ) :
    Exported ((Router.new shards baseDeg cap).stateAt es n) ∧
      (((Router.new shards baseDeg cap).stateAt es n).partitionJson.map CellEntry.rx).sum =
        (es.take n).countP Event.isCall := by
  have h0 : 0 < shards.length := List.length_pos_iff.2 hs
  have hsteady : Steady baseDeg shards.length ((Router.new shards baseDeg cap).stateAt es n) :=
    Run.invariant (step_steady hb h0) ⟨new_partitioned shards baseDeg cap, rfl, rfl⟩ (es.take n)
  have hcounted : Counted (Router.new shards baseDeg cap) :=
    fun k hk => absurd hk Finmap.notMem_empty
  have hzero : (Router.new shards baseDeg cap).placed = 0 := rfl
  refine ⟨⟨hsteady.finest_iff, hsteady.none_iff, partitionDump_nodup _⟩, ?_⟩
  unfold partitionJson
  rw [List.map_map]
  refine (sum_partitionDump _).trans ?_
  rw [stateAt, placed_exec hcounted, hzero, zero_add]

theorem partition_exported_two_shards :
    Exported ((Router.new [⟨0, 0⟩, ⟨0, 0⟩] (8 : ℚ) 64).stateAt crowdedCell 3) ∧
      (((Router.new [⟨0, 0⟩, ⟨0, 0⟩] (8 : ℚ) 64).stateAt crowdedCell 3).partitionJson.map
          CellEntry.rx).sum =
        (crowdedCell.take 3).countP Event.isCall :=
  partition_exported (by decide) (by decide +kernel) 64 crowdedCell 3

end Router

end Mlatd
