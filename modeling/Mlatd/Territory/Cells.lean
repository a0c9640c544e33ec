/-
  The router's cells, over every run (shard.rs, Router::leaf_at, owner_at, shard_for).

  Cells are claimed where a receiver stands and split where many do, so the split cells hang
  together from level 0 down: `Partitioned` is the invariant, kept by every call
  (`shardFor_partitioned`). It bounds the level of a leaf by the base cell size, which ends the
  loop of `leaf_at` (`leafLoop_eq`), and makes a point owned as soon as its cell of level 0 has
  received one receiver. `cells_kept` puts it together for runs.
-/
import Mathlib.Data.Nat.Log
import Mathlib.Algebra.Order.Floor.Ring
import Mlatd.Territory

namespace Mlatd

namespace Router

/-! ## The loop -/

/-- The loop of `leaf_at` from a level on; `none` when it is not done after `n` turns. -/
def leafLoop {F : Type} [F64 F] (r : Router F) (p : F × F) : ℕ → ℕ → Option CellKey
  | 0, _ => none
  | n + 1, level =>
    let key := cellAt r.baseDeg level p
    if key ∉ r.map.split then some key else leafLoop r p n (level + 1)

/-- The level of the leaf around a point. -/
def leafLevel {F : Type} [F64 F] (r : Router F) (p : F × F) : ℕ :=
  CellTree.leafLevel (cellAt r.baseDeg) r.map.split p

/-- The loop ends at the leaf, one turn for each level down to it. -/
theorem leafLoop_eq {F : Type} [F64 F] (r : Router F) (p : F × F) {n level : ℕ}
    (h1 : level ≤ r.leafLevel p) (h2 : r.leafLevel p < level + n) :
    r.leafLoop p n level = some (r.leafAt p) := by
  obtain ⟨hleaf, hbelow⟩ := CellTree.leaf_spec (cellAt_levelled r.baseDeg) r.map.split p
  induction n generalizing level with
  | zero => omega
  | succ n ih =>
    unfold leafLoop
    by_cases he : level = r.leafLevel p
    · have hkey : cellAt r.baseDeg level p = r.leafAt p := by rw [he]; rfl
      simp only [hkey]
      exact if_pos hleaf
    · have hlt : level < r.leafLevel p := by omega
      simp only
      rw [if_neg (not_not.2 (hbelow level hlt))]
      exact ih (by omega) (by omega)

/-! ## Ancestors -/

theorem cellAt_level {F : Type} [F64 F] (baseDeg : F) (level : ℕ) (p : F × F) :
    (cellAt baseDeg level p).1 = level := rfl

/-- The cell a cell was cut from. -/
def parent (k : CellKey) : CellKey := (k.1 - 1, k.2.1 / 2, k.2.2 / 2)

/-- In range the cast of an index is exact. -/
theorem index_exact {x s : ℚ} (hx : -180 ≤ x) (hx' : x ≤ 180) (hs : 1 ≤ s) :
    F64.asI16 (F64.floor (x / s)) = ⌊x / s⌋ := by
  obtain ⟨h1, h2⟩ := index_small hx hx' hs
  have h3 := asI16_floor (x / s)
  rw [h3] at h1 h2 ⊢
  unfold F64.saturate at h1 h2 ⊢
  omega

/-- The cells around a receiver nest. -/
theorem parent_cellAt {baseDeg : ℚ} {level : ℕ} (hs : 1 ≤ cellSize baseDeg (level + 1))
    (p : Position) : parent (cellAt baseDeg (level + 1) p.point) = cellAt baseDeg level p.point := by
  obtain ⟨⟨h1, h2⟩, h3, h4⟩ := p.bounds
  have hs' : 1 ≤ cellSize baseDeg level := by
    rw [cellSize_succ] at hs
    linarith
  unfold parent cellAt Position.point
  simp only [Nat.add_sub_cancel, Prod.mk.injEq, true_and]
  rw [index_exact (by linarith) (by linarith) hs, index_exact (by linarith) (by linarith) hs',
    index_exact h3 h4 hs, index_exact h3 h4 hs', cellSize_succ]
  exact ⟨floor_half _ _, floor_half _ _⟩

theorem iterate_parent_cellAt {baseDeg : ℚ} {level j : ℕ} (hj : j ≤ level)
    (hs : 1 ≤ cellSize baseDeg level) (p : Position) :
    parent^[j] (cellAt baseDeg level p.point) = cellAt baseDeg (level - j) p.point := by
  induction j generalizing level with
  | zero => rfl
  | succ j ih =>
    obtain ⟨l, rfl⟩ : ∃ l, level = l + 1 := ⟨level - 1, by omega⟩
    have hs' : 1 ≤ cellSize baseDeg l := by
      rw [cellSize_succ] at hs
      linarith
    rw [Function.iterate_succ_apply, parent_cellAt hs, ih (by omega) hs']
    congr 1
    omega

/-! ## The invariant -/

/-- Split cells are owned, crowded and large enough; owned ones are around a receiver. -/
structure Partitioned (r : Router ℚ) : Prop where
  rooted : Rooted r
  exist : r.OwnersExist
  owned : ∀ k ∈ r.map.split, ∃ i, r.map.owner.lookup k = some i
  crowded : ∀ k ∈ r.map.split, ∃ n, r.map.rxCount.lookup k = some n ∧ splitAt < n
  large : ∀ k ∈ r.map.split, splittable r.baseDeg k.1 = true
  around : ∀ k i, r.map.owner.lookup k = some i → ∃ (p : Position) (level : ℕ),
    k = cellAt r.baseDeg level p.point ∧ minCellDeg ≤ cellSize r.baseDeg level

theorem new_partitioned (shards : List ShardHandle) (baseDeg : ℚ) (cap : ℕ) :
    Partitioned (Router.new shards baseDeg cap) where
  rooted := new_rooted shards baseDeg cap
  exist _ _ h := by cases (Finmap.lookup_empty _).symm.trans h
  owned k h := absurd h (Finset.notMem_empty k)
  crowded k h := absurd h (Finset.notMem_empty k)
  large k h := absurd h (Finset.notMem_empty k)
  around _ _ h := by cases (Finmap.lookup_empty _).symm.trans h

/-- A leaf is never smaller than the smallest cell. -/
theorem Partitioned.leaf_large {r : Router ℚ} (h : Partitioned r) (hb : minCellDeg ≤ r.baseDeg)
    (p : ℚ × ℚ) : minCellDeg ≤ cellSize r.baseDeg (r.leafLevel p) := by
  cases hl : r.leafLevel p with
  | zero =>
    unfold cellSize F64.ofNat
    show minCellDeg ≤ r.baseDeg / (((2 ^ 0 : ℕ) : ℤ) : ℚ)
    simpa using hb
  | succ l =>
    have h1 : cellAt r.baseDeg l p ∈ r.map.split :=
      (CellTree.leaf_spec (cellAt_levelled r.baseDeg) r.map.split p).2 l (by
        unfold leafLevel at hl
        omega)
    have h2 := h.large _ h1
    rw [cellAt_level] at h2
    unfold splittable at h2
    exact of_decide_eq_true h2

theorem cellSize_eq (baseDeg : ℚ) (level : ℕ) : cellSize baseDeg level = baseDeg / 2 ^ level := by
  unfold cellSize F64.ofNat
  show baseDeg / (((2 ^ level : ℕ) : ℤ) : ℚ) = _
  push_cast
  rfl

/-- So there are not many levels. -/
theorem Partitioned.leafLevel_le {r : Router ℚ} (h : Partitioned r) (hb : minCellDeg ≤ r.baseDeg)
    (p : ℚ × ℚ) : r.leafLevel p ≤ Nat.log 2 ⌊r.baseDeg / minCellDeg⌋₊ := by
  have h1 := h.leaf_large hb p
  rw [cellSize_eq] at h1
  unfold minCellDeg at h1 ⊢
  norm_num at h1 ⊢
  apply Nat.le_log_of_pow_le (by decide)
  rw [Nat.le_floor_iff' (by positivity)]
  rw [le_div_iff₀ (by positivity)] at h1
  push_cast
  linarith

/-- The cells above an owned one are split. -/
theorem Partitioned.split_of_owned {r : Router ℚ} (h : Partitioned r) {l m : ℕ} (hlt : m < l)
    {p : ℚ × ℚ} {i : ℕ} (hi : r.map.owner.lookup (cellAt r.baseDeg l p) = some i) :
    cellAt r.baseDeg m p ∈ r.map.split := by
  obtain ⟨l', rfl⟩ : ∃ l', l = l' + 1 := ⟨l - 1, by omega⟩
  exact h.rooted.split_above (by omega) (h.rooted.owner_up l' p i hi)

theorem Partitioned.nested {r : Router ℚ} (h : Partitioned r) {k : CellKey} {i : ℕ}
    (hi : r.map.owner.lookup k = some i) {j : ℕ} (hj : 1 ≤ j) (hj' : j ≤ k.1) :
    parent^[j] k ∈ r.map.split := by
  obtain ⟨p, level, rfl, hsize⟩ := h.around k i hi
  have hone : 1 ≤ cellSize r.baseDeg level := by
    unfold minCellDeg at hsize
    norm_num at hsize
    linarith
  have hlevel : j ≤ level := hj'
  rw [iterate_parent_cellAt hlevel hone]
  exact h.split_of_owned (by omega) hi

/-- A point is owned exactly when its cell of level 0 is. -/
theorem Partitioned.ownerOfPoint_iff {r : Router ℚ} (h : Partitioned r) (q : ℚ × ℚ) :
    (∃ i, r.ownerOfPoint q = some i) ↔ ∃ i, r.map.owner.lookup (cellAt r.baseDeg 0 q) = some i := by
  constructor
  · rintro ⟨i, hi⟩
    obtain ⟨l, hl⟩ := CellTree.exists_of_ownerFrom hi
    cases l with
    | zero => exact ⟨i, hl⟩
    | succ l => exact h.owned _ (h.split_of_owned (Nat.succ_pos l) hl)
  · rintro ⟨i, hi⟩
    exact CellTree.ownerFrom_of_base hi _

/-! ## A call -/

theorem shardFor_partitioned {r : Router ℚ} (h : Partitioned r) (hb : minCellDeg ≤ r.baseDeg)
    (h0 : 0 < r.shards.length) (p : Position) (rank : ℕ → ℕ) :
    Partitioned (r.shardFor p.point rank).1 := by
  have hleaf := (CellTree.leaf_spec (cellAt_levelled r.baseDeg) r.map.split p.point).1
  have howner : (r.shardFor p.point rank).1.map.owner =
      r.map.owner.insert (r.leafAt p.point) (r.chosen p.point rank) := claim_owner r p.point rank
  -- the leaf is split only when it is crowded and large enough
  have hsplit : ∀ k, k ∈ (r.shardFor p.point rank).1.map.split → k ∈ r.map.split ∨
      k = r.leafAt p.point ∧ splitAt < (r.map.rxCount.lookup (r.leafAt p.point)).getD 0 + 1 ∧
        splittable r.baseDeg (r.leafAt p.point).1 = true := by
    intro k hk
    unfold shardFor claim at hk
    simp only at hk
    split at hk
    · next hc =>
      rcases Finset.mem_insert.1 hk with h1 | h1
      · exact Or.inr ⟨h1, hc⟩
      · exact Or.inl h1
    · exact Or.inl hk
  refine ⟨shardFor_rooted h.rooted p rank, shardFor_ownersExist h.exist h0 p.point rank, ?_, ?_, ?_,
    ?_⟩
  · intro k hk
    rw [howner, Finmap.exists_lookup_insert]
    rcases hsplit k hk with h1 | h1
    · exact Or.inr (h.owned k h1)
    · exact Or.inl h1.1
  · intro k hk
    show ∃ n, (r.map.rxCount.insert (r.leafAt p.point) _).lookup k = some n ∧ splitAt < n
    rw [Finmap.lookup_insert_ite]
    rcases hsplit k hk with h1 | h1
    · have hne : k ≠ r.leafAt p.point := by
        rintro rfl
        exact hleaf h1
      rw [if_neg hne]
      exact h.crowded k h1
    · rw [if_pos h1.1]
      exact ⟨_, rfl, h1.2.1⟩
  · intro k hk
    rcases hsplit k hk with h1 | h1
    · exact h.large k h1
    · rw [h1.1]
      exact h1.2.2
  · intro k i hi
    rw [howner, Finmap.lookup_insert_ite] at hi
    split at hi
    · next hk => exact ⟨p, r.leafLevel p.point, hk, h.leaf_large hb p.point⟩
    · exact h.around k i hi

/-- An owner entry is never overwritten. -/
theorem shardFor_keeps_owner {r : Router ℚ} (p : ℚ × ℚ) (rank : ℕ → ℕ) {k : CellKey} {i : ℕ}
    (hi : r.map.owner.lookup k = some i) :
    (r.shardFor p rank).1.map.owner.lookup k = some i := by
  show (r.claim (r.leafAt p) (r.chosen p rank)).owner.lookup k = some i
  rw [claim_owner, Finmap.lookup_insert_ite]
  split
  · next hk =>
    rw [hk] at hi
    rw [(chosen_of_claimed rank hi).1]
  · exact hi

/-- A call puts the cell of level 0 around its position on the map, and no other. -/
theorem shardFor_base {r : Router ℚ} (h : Partitioned r) (p : ℚ × ℚ) (rank : ℕ → ℕ) (q : ℚ × ℚ) :
    (∃ i, (r.shardFor p rank).1.map.owner.lookup (cellAt r.baseDeg 0 q) = some i) ↔
      (∃ i, r.map.owner.lookup (cellAt r.baseDeg 0 q) = some i) ∨
        cellAt r.baseDeg 0 q = cellAt r.baseDeg 0 p := by
  show (∃ i, (r.claim (r.leafAt p) (r.chosen p rank)).owner.lookup _ = some i) ↔ _
  rw [claim_owner, Finmap.exists_lookup_insert]
  by_cases hl : r.leafLevel p = 0
  · have hleaf : r.leafAt p = cellAt r.baseDeg 0 p := by
      rw [← hl]
      rfl
    rw [hleaf, or_comm]
  · have hne : cellAt r.baseDeg 0 q ≠ r.leafAt p := fun he =>
      hl (cellAt_levelled r.baseDeg _ _ _ _ he).symm
    have hsplit : cellAt r.baseDeg 0 p ∈ r.map.split :=
      (CellTree.leaf_spec (cellAt_levelled r.baseDeg) r.map.split p).2 0 (Nat.pos_of_ne_zero hl)
    rw [or_iff_right hne]
    constructor
    · exact Or.inl
    · rintro (h1 | h1)
      · exact h1
      · rw [h1]
        exact h.owned _ hsplit

/-! ## Runs -/

theorem step_baseDeg (r : Router ℚ) (e : Event) : (step r e).baseDeg = r.baseDeg := by
  cases e <;> rfl

theorem step_length (r : Router ℚ) (e : Event) : (step r e).shards.length = r.shards.length := by
  cases e with
  | call p rank => exact List.length_modify _ _ _
  | load shard h => exact List.length_set

/-- The invariant with what a run never changes: the base size and the number of shards. -/
structure Steady (baseDeg : ℚ) (shards : ℕ) (r : Router ℚ) : Prop extends Partitioned r where
  base : r.baseDeg = baseDeg
  count : r.shards.length = shards

theorem step_steady {baseDeg : ℚ} {shards : ℕ} (hb : minCellDeg ≤ baseDeg) (h0 : 0 < shards)
    (r : Router ℚ) (e : Event) (h : Steady baseDeg shards r) :
    Steady baseDeg shards (step r e) := by
  have hb' : minCellDeg ≤ r.baseDeg := by rwa [h.base]
  have h0' : 0 < r.shards.length := by rwa [h.count]
  refine ⟨?_, (step_baseDeg r e).trans h.base, (step_length r e).trans h.count⟩
  cases e with
  | call p rank => exact shardFor_partitioned h.toPartitioned hb' h0' p rank
  | load shard hd =>
    refine ⟨h.rooted, fun k i hi => ?_, h.owned, h.crowded, h.large, h.around⟩
    rw [step_length]
    exact h.exist k i hi

theorem step_keeps_owner (r : Router ℚ) (e : Event) {k : CellKey} {i : ℕ}
    (hi : r.map.owner.lookup k = some i) : (step r e).map.owner.lookup k = some i := by
  cases e with
  | call p rank => exact shardFor_keeps_owner p.point rank hi
  | load shard h => exact hi

/-- The partition over a run: what is split is owned, crowded and large enough, what is owned hangs
    together and stays, the loop of `leaf_at` ends, and the points with an owner are those whose
    cell of level 0 has received a receiver. -/
structure CellsKept (r : Router ℚ) (es : List Event) : Prop where
  split : ∀ n, ∀ k ∈ (r.stateAt es n).map.split,
    (∃ i, (r.stateAt es n).map.owner.lookup k = some i) ∧
      (∃ c, (r.stateAt es n).map.rxCount.lookup k = some c ∧ splitAt < c) ∧
        minCellDeg ≤ cellSize r.baseDeg (k.1 + 1)
  nested : ∀ n k i, (r.stateAt es n).map.owner.lookup k = some i → ∀ j, 1 ≤ j → j ≤ k.1 →
    parent^[j] k ∈ (r.stateAt es n).map.split
  valid : ∀ n k i, (r.stateAt es n).map.owner.lookup k = some i → i < r.shards.length
  kept : ∀ m n, m ≤ n → ∀ k i, (r.stateAt es m).map.owner.lookup k = some i →
    (r.stateAt es n).map.owner.lookup k = some i
  ends : ∀ n p, (r.stateAt es n).leafLoop p (Nat.log 2 ⌊r.baseDeg / minCellDeg⌋₊ + 1) 0 =
    some ((r.stateAt es n).leafAt p)
  /-- no shift past 31 in the loop nor in `splittable` after it -/
  shifts : ∀ n p, (r.stateAt es n).leafLevel p + 1 < 32
  claimed : ∀ n q, (∃ i, (r.stateAt es n).ownerOfPoint q = some i) ↔
    ∃ m p rank, m < n ∧ es[m]? = some (.call p rank) ∧
      cellAt r.baseDeg 0 q = cellAt r.baseDeg 0 p.point
  answered : ∀ n p rank, es[n]? = some (.call p rank) →
    (r.stateAt es (n + 1)).ownerOfPoint p.point = some ((r.stateAt es n).shardFor p.point rank).2

theorem stateAt_of_none {r : Router ℚ} {es : List Event} {n : ℕ} (h : es[n]? = none) :
    r.stateAt es (n + 1) = r.stateAt es n := by
  have hlen := List.getElem?_eq_none_iff.1 h
  unfold stateAt
  rw [List.take_of_length_le hlen, List.take_of_length_le (Nat.le_succ_of_le hlen)]

section
variable {r : Router ℚ} {es : List Event}

theorem stateAt_keeps_owner {m n : ℕ} (hmn : m ≤ n) {k : CellKey} {i : ℕ}
    (hi : (r.stateAt es m).map.owner.lookup k = some i) :
    (r.stateAt es n).map.owner.lookup k = some i := by
  induction n with
  | zero =>
    obtain rfl : m = 0 := by omega
    exact hi
  | succ n ih =>
    by_cases he : m = n + 1
    · rw [← he]
      exact hi
    · have h1 := ih (by omega)
      cases hget : es[n]? with
      | none => rw [stateAt_of_none hget]; exact h1
      | some e => rw [stateAt_succ hget]; exact step_keeps_owner _ e h1

/-- The cells of level 0 on the map are those around the receivers so far. -/
theorem stateAt_base {baseDeg : ℚ} {shards : ℕ} (hs : ∀ n, Steady baseDeg shards (r.stateAt es n))
    (hnone : ∀ k, r.map.owner.lookup k = none) (n : ℕ) (q : ℚ × ℚ) :
    (∃ i, (r.stateAt es n).map.owner.lookup (cellAt baseDeg 0 q) = some i) ↔
      ∃ m p rank, m < n ∧ es[m]? = some (.call p rank) ∧
        cellAt baseDeg 0 q = cellAt baseDeg 0 p.point := by
  induction n with
  | zero =>
    refine iff_of_false ?_ fun ⟨m, _, _, h, _⟩ => absurd h (Nat.not_lt_zero m)
    rintro ⟨i, hi⟩
    have h1 : r.map.owner.lookup (cellAt baseDeg 0 q) = some i := hi
    rw [hnone] at h1
    cases h1
  | succ n ih =>
    -- an earlier call, or this one
    have hsucc : (∃ m p rank, m < n + 1 ∧ es[m]? = some (.call p rank) ∧
        cellAt baseDeg 0 q = cellAt baseDeg 0 p.point) ↔
        (∃ m p rank, m < n ∧ es[m]? = some (.call p rank) ∧
          cellAt baseDeg 0 q = cellAt baseDeg 0 p.point) ∨
        ∃ p rank, es[n]? = some (.call p rank) ∧
          cellAt baseDeg 0 q = cellAt baseDeg 0 p.point := by
      constructor
      · rintro ⟨m, p, rank, hm, h1, h2⟩
        by_cases he : m = n
        · rw [he] at h1
          exact Or.inr ⟨p, rank, h1, h2⟩
        · exact Or.inl ⟨m, p, rank, by omega, h1, h2⟩
      · rintro (⟨m, p, rank, hm, h1⟩ | ⟨p, rank, h1⟩)
        · exact ⟨m, p, rank, by omega, h1⟩
        · exact ⟨n, p, rank, Nat.lt_succ_self n, h1⟩
    rw [hsucc, ← ih]
    cases hget : es[n]? with
    | none =>
      rw [stateAt_of_none hget]
      simp
    | some e =>
      rw [stateAt_succ hget]
      cases e with
      | load shard h => simp [step]
      | call p rank =>
        have h1 := shardFor_base (hs n).toPartitioned p.point rank q
        rw [(hs n).base] at h1
        rw [show step (r.stateAt es n) (.call p rank) =
          ((r.stateAt es n).shardFor p.point rank).1 from rfl, h1]
        apply or_congr_right
        constructor
        · intro h2
          exact ⟨p, rank, rfl, h2⟩
        · rintro ⟨p', rank', h2, h3⟩
          cases h2
          exact h3

end

/-- **The quadtree partition**: for a base cell of 2 to 360 degrees and at least one shard, in
    every run of calls. -/
theorem cells_kept (shards : List ShardHandle) (hs : shards ≠ []) (baseDeg : ℚ)
    (hb : minCellDeg ≤ baseDeg) (hb' : baseDeg ≤ 360) (cap : ℕ) (es : List Event) :
    CellsKept (Router.new shards baseDeg cap) es := by
  set r := Router.new shards baseDeg cap with hr
  have h0 : 0 < shards.length := List.length_pos_iff.2 hs
  have hsteady : ∀ n, Steady baseDeg shards.length (r.stateAt es n) := fun n =>
    Run.invariant (step_steady hb h0) ⟨new_partitioned shards baseDeg cap, rfl, rfl⟩ (es.take n)
  have hbase : ∀ n, minCellDeg ≤ (r.stateAt es n).baseDeg := by
    intro n
    rw [(hsteady n).base]
    exact hb
  have hlevel : ∀ n p, (r.stateAt es n).leafLevel p ≤ Nat.log 2 ⌊baseDeg / minCellDeg⌋₊ := by
    intro n p
    have h1 := (hsteady n).leafLevel_le (hbase n) p
    rwa [(hsteady n).base] at h1
  have hlog : Nat.log 2 ⌊baseDeg / minCellDeg⌋₊ < 8 := by
    apply Nat.log_lt_of_lt_pow' (by decide)
    rw [Nat.floor_lt' (by decide)]
    unfold minCellDeg
    norm_num
    linarith
  refine ⟨fun n k hk => ⟨(hsteady n).owned k hk, (hsteady n).crowded k hk, ?_⟩,
    fun n k i hi j hj hj' => (hsteady n).nested hi hj hj', fun n k i hi => ?_,
    fun m n hmn k i hi => stateAt_keeps_owner hmn hi, fun n p => ?_, fun n p => ?_, fun n q => ?_,
    fun n p rank he => ?_⟩
  · have h1 := (hsteady n).large k hk
    rw [(hsteady n).base] at h1
    unfold splittable at h1
    exact of_decide_eq_true h1
  · have h1 := (hsteady n).exist k i hi
    rwa [(hsteady n).count] at h1
  · apply leafLoop_eq _ _ (Nat.zero_le _)
    have h1 := hlevel n p
    show _ < 0 + (Nat.log 2 ⌊baseDeg / minCellDeg⌋₊ + 1)
    omega
  · have h1 := hlevel n p
    omega
  · have h1 := (hsteady n).ownerOfPoint_iff q
    rw [(hsteady n).base] at h1
    rw [h1]
    exact stateAt_base hsteady (fun k => Finmap.lookup_empty k) n q
  · rw [stateAt_succ he]
    show ((r.stateAt es n).shardFor p.point rank).1.ownerOfPoint p.point = _
    rw [shardFor_owner (hsteady n).rooted, if_pos rfl]
    rfl

theorem cells_kept_two_shards :
    CellsKept (Router.new [⟨0, 0⟩, ⟨0, 0⟩] (8 : ℚ) 64) crowdedCell :=
  cells_kept [⟨0, 0⟩, ⟨0, 0⟩] (by decide) 8 (by decide +kernel) (by decide +kernel) 64 crowdedCell

end Router

end Mlatd
