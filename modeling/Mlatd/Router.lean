/-
  The router (shard.rs, Router): which shard serves a position.

  The earth is cut into cells that split where receivers crowd. Loads are read once per call. Where
  the source takes the last of equal maxima of a hash map, `rank` is the map's order. A level is a
  number: `1u32 << level` is `2 ^ level`, and levels stay below 32 for any base below `2 ^ 33`
  degrees, since cells under `minCellDeg` do not come from a split.
-/
import Mathlib.Data.List.MinMax
import Mathlib.Data.Prod.Lex
import Mlatd.Lib.CellTree
import Mlatd.Lib.F64

namespace Mlatd

variable {F : Type} [F64 F]

/-- mlat-server's receiver position ranges. -/
def plausiblePosition (lat lon alt : F) : Bool :=
  decide (-90.0 ≤ lat) && decide (lat ≤ 90.0) && decide (-180.0 ≤ lon) && decide (lon ≤ 180.0) &&
    decide (-1000.0 ≤ alt) && decide (alt ≤ 10000.0)

/-- What the router sees of a shard. -/
structure ShardHandle where
  receivers : ℕ
  /-- Sync observations in the last stats window, written by the stats task. -/
  rate : ℕ
  deriving DecidableEq

instance : Inhabited ShardHandle := ⟨⟨0, 0⟩⟩

/-- `receivers.fetch_add(1)` -/
def ShardHandle.fetchAdd (h : ShardHandle) : ShardHandle := { h with receivers := h.receivers + 1 }

/-- `receivers.fetch_sub(1)`, which wraps below zero. -/
def ShardHandle.fetchSub (h : ShardHandle) : ShardHandle :=
  { h with receivers := if h.receivers = 0 then 2 ^ 64 - 1 else h.receivers - 1 }

/-- A partition cell: level, lat index, lon index. -/
abbrev CellKey := ℕ × ℤ × ℤ

/-- Splitting never goes below this cell size, degrees. -/
def minCellDeg : F := 2.0
/-- A cell splits above this count. -/
def splitAt : ℕ := 64
/-- Rate half of the capacity gate: sync observations per stats window. -/
def capRatePerWindow : ℕ := 50000

structure CellMap where
  owner : HashMap CellKey ℕ
  rxCount : HashMap CellKey ℕ
  split : Finset CellKey

structure Router (F : Type) where
  shards : List ShardHandle
  /-- Level 0 cell size, degrees. -/
  baseDeg : F
  cap : ℕ
  map : CellMap

namespace Router

def new (shards : List ShardHandle) (baseDeg : F) (cap : ℕ) : Router F :=
  { shards := shards, baseDeg := baseDeg, cap := cap, map := ⟨∅, ∅, ∅⟩ }

/-! ## Cells -/

def cellSize (baseDeg : F) (level : ℕ) : F := baseDeg / F64.ofNat (2 ^ level)

/-- The cell of a level around a point. -/
def cellAt (baseDeg : F) (level : ℕ) (p : F × F) : CellKey :=
  (level, F64.asI16 (F64.floor (p.1 / cellSize baseDeg level)),
    F64.asI16 (F64.floor (p.2 / cellSize baseDeg level)))

/-- A cell at this level may split further. -/
def splittable (baseDeg : F) (level : ℕ) : Bool :=
  decide (minCellDeg ≤ cellSize baseDeg (level + 1))

/-- Deepest unsplit cell containing the point. -/
def leafAt (r : Router F) (p : F × F) : CellKey := CellTree.leaf (cellAt r.baseDeg) r.map.split p

/-- The leaf cell's shard, else that of the nearest mapped ancestor. -/
def ownerAt (r : Router F) (p : F × F) : Option ℕ :=
  CellTree.ownerAt (cellAt r.baseDeg) r.map.owner r.map.split p

/-- The shard whose territory contains the point. -/
def ownerOfPoint (r : Router F) (p : F × F) : Option ℕ := r.ownerAt p

/-- The output task's territory gate: a fix of `shard` at a point others own is dropped. -/
def mayPublish (r : Router F) (shard : ℕ) (p : F × F) : Bool :=
  match r.ownerOfPoint p with
  | some owner => decide (owner = shard)
  | none => true

/-! ## Assignment -/

def handle (r : Router F) (shard : ℕ) : ShardHandle := r.shards.getD shard default

def hasCapacity (r : Router F) (shard : ℕ) : Bool :=
  decide ((r.handle shard).receivers < r.cap) && decide ((r.handle shard).rate < capRatePerWindow)

/-- Load as `min_by_key` compares it: the rate, then the receivers. -/
def loadOf (r : Router F) (shard : ℕ) : ℕ ×ₗ ℕ :=
  toLex ((r.handle shard).rate, (r.handle shard).receivers)

/-- The eight neighbours of a cell, as steps of one cell. -/
def neighbours : List (ℤ × ℤ) :=
  [(-1, -1), (-1, 0), (-1, 1), (0, -1), (0, 1), (1, -1), (1, 0), (1, 1)]

/-- The centre of the cell `d` steps from `key`. -/
def centre (r : Router F) (key : CellKey) (d : ℤ × ℤ) : F × F :=
  let size := cellSize r.baseDeg key.1
  let clat := (F64.ofInt key.2.1 + 0.5) * size
  let clon := (F64.ofInt key.2.2 + 0.5) * size
  (clat + F64.ofInt d.1 * size, clon + F64.ofInt d.2 * size)

/-- One vote for each neighbour of `key` whose owner has capacity. -/
def votes (r : Router F) (key : CellKey) : List ℕ :=
  neighbours.filterMap fun d => (r.ownerAt (r.centre key d)).filter r.hasCapacity

/-- What `max_by_key` compares: the votes, then the lighter rate and count, then the place in
    the map of votes. -/
def standing (r : Router F) (votes : List ℕ) (rank : ℕ → ℕ) (shard : ℕ) :
    ℕ ×ₗ ℕ ×ₗ ℕ ×ₗ ℕ ×ₗ ℕ :=
  toLex (votes.count shard, toLex (2 ^ 64 - 1 - (r.handle shard).rate,
    toLex (2 ^ 64 - 1 - (r.handle shard).receivers, toLex (rank shard, shard))))

/-- The neighbours' choice, `none` without an eligible neighbour. -/
def elect (r : Router F) (rank : ℕ → ℕ) (key : CellKey) : Option ℕ :=
  let vs := r.votes key
  vs.argmax (r.standing vs rank)

/-- The shard with the least load, the first of equals. -/
def lightest (r : Router F) : ℕ := ((List.range r.shards.length).argmin r.loadOf).getD 0

/-- The shard a new leaf around `p` goes to. -/
def assign (r : Router F) (p : F × F) (rank : ℕ → ℕ) : ℕ :=
  match r.elect rank (r.leafAt p) with
  | some i => i
  | none => (r.ownerAt p).getD r.lightest

/-- The shard `shardFor` answers. -/
def chosen (r : Router F) (p : F × F) (rank : ℕ → ℕ) : ℕ :=
  match r.map.owner.lookup (r.leafAt p) with
  | some i => i
  | none => r.assign p rank

/-- The cell map after a receiver more in the leaf `key` of `shard`. -/
def claim (r : Router F) (key : CellKey) (shard : ℕ) : CellMap :=
  let count := (r.map.rxCount.lookup key).getD 0 + 1
  { owner := if (r.map.owner.lookup key).isSome then r.map.owner else r.map.owner.insert key shard
    rxCount := r.map.rxCount.insert key count
    split := if splitAt < count ∧ splittable r.baseDeg key.1 then insert key r.map.split
      else r.map.split }

/-- Shard for a receiver at a point, remembered for the process lifetime; counted here, at claim
    time. -/
def shardFor (r : Router F) (p : F × F) (rank : ℕ → ℕ) : Router F × ℕ :=
  let i := r.chosen p rank
  ({ r with
     map := r.claim (r.leafAt p) i
     shards := r.shards.modify i ShardHandle.fetchAdd }, i)

/-- What a connection's teardown gives back. -/
def release (r : Router F) (shard : ℕ) : Router F :=
  { r with shards := r.shards.modify shard ShardHandle.fetchSub }

/-! ## Owners exist -/

/-- Owned cells belong to shards that exist. -/
def OwnersExist (r : Router F) : Prop :=
  ∀ key i, r.map.owner.lookup key = some i → i < r.shards.length

theorem ownerAt_lt {r : Router F} (h : r.OwnersExist) {p : F × F} {i : ℕ}
    (hp : r.ownerAt p = some i) : i < r.shards.length := by
  obtain ⟨level, hlevel⟩ := CellTree.exists_of_ownerFrom hp
  exact h _ i hlevel

omit [F64 F] in
theorem lightest_lt {r : Router F} (h : 0 < r.shards.length) : r.lightest < r.shards.length := by
  unfold lightest
  cases hm : (List.range r.shards.length).argmin r.loadOf with
  | none => exact h
  | some i => exact List.mem_range.1 (List.argmin_mem hm)

/-- A claim is of a shard that exists. -/
theorem chosen_lt {r : Router F} (h : r.OwnersExist) (h0 : 0 < r.shards.length) (p : F × F)
    (rank : ℕ → ℕ) : r.chosen p rank < r.shards.length := by
  unfold chosen
  split
  · next i hi => exact h _ i hi
  · unfold assign elect
    split
    · next i hi =>
      obtain ⟨d, -, hd⟩ := List.mem_filterMap.1 (List.argmax_mem hi)
      exact ownerAt_lt h (Option.filter_eq_some_iff.1 hd).1
    · cases ho : r.ownerAt p with
      | none => exact lightest_lt h0
      | some i => exact ownerAt_lt h ho

theorem shardFor_ownersExist {r : Router F} (h : r.OwnersExist) (h0 : 0 < r.shards.length)
    (p : F × F) (rank : ℕ → ℕ) : (r.shardFor p rank).1.OwnersExist := by
  intro key i hkey
  have hlen : (r.shardFor p rank).1.shards.length = r.shards.length := List.length_modify _ _ _
  rw [hlen]
  have hkey' : (r.claim (r.leafAt p) (r.chosen p rank)).owner.lookup key = some i := hkey
  unfold claim at hkey'
  dsimp only at hkey'
  split at hkey'
  · exact h key i hkey'
  · rw [Finmap.lookup_insert_ite] at hkey'
    split at hkey'
    · cases hkey'
      exact chosen_lt h h0 p rank
    · exact h key i hkey'

end Router

end Mlatd
