/-
  The router where longitude is cut (shard.rs, Router::shard_for, under the longitudes of solve.rs
  and of the handshake).

  As long as nobody claims a cell at longitude 180 or -180, the map of the turned run is the map of
  the run with its cells turned (`Turned`), whatever the number of cells to the turn, where every
  cell is called from one half alone. What differs is the vote: no neighbour is seen across the
  cut. `cutUnseen_of_clear` says that this is all and, as far as the cells fit the cast, that only
  such runs show no cut. Cells too many for the cast are followed one at a time (`LoneTurned`).
-/
import Mlatd.Territory.Turn

namespace Mlatd

namespace Router

/-! ## The router at the cut -/

/-- What keeps the map away from the cut. -/
structure Inner (N : ℕ) (r : Router ℚ) : Prop where
  base : r.baseDeg = 360 / N
  rooted : Rooted r
  large : ∀ key ∈ r.map.split, N * 2 ^ (key.1 + 1) ≤ 180
  owned : ∀ key i, r.map.owner.lookup key = some i → Inside N key
  split : ∀ key ∈ r.map.split, Inside N key

/-- The map of `r'` is that of `r` turned by `k` cells of level 0. -/
structure Turned (N : ℕ) (east : CellKey → Bool) (k : ℤ) (r r' : Router ℚ) : Prop where
  base : r'.baseDeg = r.baseDeg
  shards : r'.shards = r.shards
  cap : r'.cap = r.cap
  owner : ∀ key, Inside N key →
    r'.map.owner.lookup (turnKey N east k key) = r.map.owner.lookup key
  rxCount : ∀ key, Inside N key →
    r'.map.rxCount.lookup (turnKey N east k key) = r.map.rxCount.lookup key
  split : ∀ key, Inside N key → (turnKey N east k key ∈ r'.map.split ↔ key ∈ r.map.split)
  owned_of : ∀ key i, r'.map.owner.lookup key = some i →
    ∃ κ, Inside N κ ∧ key = turnKey N east k κ
  split_of : ∀ key ∈ r'.map.split, ∃ κ, Inside N κ ∧ key = turnKey N east k κ

/-- A point whose cell of level 0 is off the map belongs to nobody. -/
theorem ownerAt_of_off {r : Router ℚ} {q : ℚ × ℚ} (hs : cellAt r.baseDeg 0 q ∉ r.map.split)
    (ho : r.map.owner.lookup (cellAt r.baseDeg 0 q) = none) :
    r.leafAt q = cellAt r.baseDeg 0 q ∧ r.ownerAt q = none := by
  have hlevel : CellTree.leafLevel (cellAt r.baseDeg) r.map.split q = 0 :=
    CellTree.leafLevel_unique (cellAt_levelled r.baseDeg) hs fun l h => absurd h (Nat.not_lt_zero l)
  constructor
  · unfold leafAt CellTree.leaf
    rw [hlevel]
  · unfold ownerAt CellTree.ownerAt
    rw [hlevel]
    exact ho

/-- Cells that may split are few to the turn. -/
theorem few_of_splittable {N : ℕ} (hN : 0 < N) {level : ℕ}
    (h : splittable (360 / N : ℚ) level = true) : N * 2 ^ (level + 1) ≤ 180 := by
  have hmin : (2.0 : ℚ) ≤ cellSize (360 / N : ℚ) (level + 1) := of_decide_eq_true h
  rw [cellSize_eq, div_div, le_div_iff₀ (by positivity)] at hmin
  norm_num at hmin
  have hle : ((N * 2 ^ (level + 1) : ℕ) : ℚ) ≤ 180 := by
    push_cast
    linarith
  exact_mod_cast hle

section
variable {N : ℕ} {east : CellKey → Bool} {k : ℤ} {r r' : Router ℚ}

theorem Inner.baseDeg_pos (hi : Inner N r) (hN : 0 < N) : 0 < r.baseDeg := by
  rw [hi.base]
  positivity

/-- Cells down to a leaf are coarse enough for the cast. -/
theorem Inner.coarse (hi : Inner N r) (q : ℚ × ℚ) {l : ℕ} (hl : l ≤ r.leafLevel q) :
    Coarse N l := by
  cases l with
  | zero => exact Or.inl rfl
  | succ l =>
    have h1 := (CellTree.leaf_spec (cellAt_levelled r.baseDeg) r.map.split q).2 l hl
    exact Or.inr (hi.large _ h1)

/-- At the cut nobody owns a point. -/
theorem Inner.ownerAt_off (hi : Inner N r) {q : ℚ × ℚ} (hq : ¬ Inside N (cellAt r.baseDeg 0 q)) :
    r.leafAt q = cellAt r.baseDeg 0 q ∧ r.ownerAt q = none :=
  ownerAt_of_off (fun h => hq (hi.split _ h))
    (Option.eq_none_iff_forall_ne_some.2 fun i h => hq (hi.owned _ i h))

/-- Where no cell inside turns to, the turned map has no owner. -/
theorem Turned.ownerAt_off (ht : Turned N east k r r') {q : ℚ × ℚ}
    (hq : ∀ κ, Inside N κ → cellAt r'.baseDeg 0 q ≠ turnKey N east k κ) :
    r'.ownerAt q = none := by
  refine (ownerAt_of_off (fun h => ?_) ?_).2
  · obtain ⟨κ, h1, h2⟩ := ht.split_of _ h
    exact hq κ h1 h2
  · refine Option.eq_none_iff_forall_ne_some.2 fun i h => ?_
    obtain ⟨κ, h1, h2⟩ := ht.owned_of _ i h
    exact hq κ h1 h2

variable (hN : 0 < N) (hfit : N ≤ 65534)
include hN hfit

/-- The leaf and the owner of a turned point. -/
theorem Turned.at_point (ht : Turned N east k r r') (hi : Inner N r) {q : ℚ × ℚ} {t : ℤ}
    (hq : Inside N (gridAt (360 / N) 0 q)) (hmoved : moved N east k (gridAt (360 / N) 0 q) = t) :
    Inside N (r.leafAt q) ∧
      r'.leafAt (shiftPoint r.baseDeg t q) = turnKey N east k (r.leafAt q) ∧
      r'.ownerAt (shiftPoint r.baseDeg t q) = r.ownerAt q := by
  have hb : (0 : ℚ) < 360 / N := by positivity
  have hnear : Near N (gridAt (360 / N) 0 q) := by
    have h := near_neighbour hN hfit hq List.mem_cons_self
    rwa [neighbourKey_zero, ancestor_gridAt] at h
  have hnear' : Near N (gridAt (360 / N) 0 (shiftPoint (360 / N) t q)) := by
    have h : Near N (shiftKey (moved N east k (ancestor (gridAt (360 / N) 0 q)))
      (ancestor (neighbourKey (gridAt (360 / N) 0 q) (0, 0)))) :=
      near_turned hN hfit hq List.mem_cons_self
    rwa [neighbourKey_zero, ancestor_gridAt, hmoved, ← gridAt_shift hb] at h
  have hgrid : ∀ l ≤ r.leafLevel q, cellAt r.baseDeg l q = gridAt (360 / N) l q := by
    intro l hl
    rw [hi.base]
    exact cellAt_eq_gridAt hN (hi.coarse q hl) hnear
  have hin : ∀ l ≤ r.leafLevel q, Inside N (cellAt r.baseDeg l q) := by
    intro l hl
    rw [hgrid l hl]
    exact hq.of_ancestor (by rw [ancestor_gridAt, ancestor_gridAt])
  have hcell : ∀ l ≤ r.leafLevel q, cellAt r'.baseDeg l (shiftPoint r.baseDeg t q) =
      turnKey N east k (cellAt r.baseDeg l q) := by
    intro l hl
    rw [ht.base, hgrid l hl, hi.base, cellAt_eq_gridAt hN (hi.coarse q hl) hnear', gridAt_shift hb]
    unfold turnKey
    rw [ancestor_gridAt, hmoved]
  have hlevel : CellTree.leafLevel (cellAt r'.baseDeg) r'.map.split (shiftPoint r.baseDeg t q) =
      r.leafLevel q :=
    CellTree.leafLevel_rename (cellAt_levelled r.baseDeg) (cellAt_levelled r'.baseDeg) hcell
      fun l hl => ht.split _ (hin l hl)
  refine ⟨hin _ le_rfl, ?_, ?_⟩
  · unfold leafAt CellTree.leaf
    rw [hlevel]
    exact hcell _ le_rfl
  · unfold ownerAt CellTree.ownerAt
    rw [hlevel]
    exact CellTree.ownerFrom_rename hcell fun l hl => ht.owner _ (hin l hl)

end

/-! ## The vote around the earth -/

/-- The centre of the cell `d` steps from `key`, around the earth. -/
def ringCentre (r : Router ℚ) (key : CellKey) (d : ℤ × ℤ) : ℚ × ℚ :=
  ((r.centre key d).1, wrapLon (r.centre key d).2)

/-- One vote for each of the eight neighbours around the earth whose owner has capacity. -/
def ringVotes (r : Router ℚ) (key : CellKey) : List ℕ :=
  neighbours.filterMap fun d => (r.ownerAt (r.ringCentre key d)).filter r.hasCapacity

/-- The votes of the neighbours that are on the same side of the cut once all is turned by `k`
    cells: those taken back as often as the cell itself. -/
def seen (r : Router ℚ) (east : CellKey → Bool) (k : ℤ) (key : CellKey) : List ℕ :=
  neighbours.filterMap fun d =>
    if way r.baseDeg east k (ancestor (neighbourKey key d)) = way r.baseDeg east k (ancestor key)
    then (r.ownerAt (r.centre key d)).filter r.hasCapacity else none

/-- The shard that takes a new leaf around `p` by the votes `vs`. -/
def assignBy (r : Router ℚ) (vs : List ℕ) (p : ℚ × ℚ) (rank : ℕ → ℕ) : ℕ :=
  match vs.argmax (r.standing vs rank) with
  | some i => i
  | none => (r.ownerAt p).getD r.lightest

theorem assign_eq (r : Router ℚ) (p : ℚ × ℚ) (rank : ℕ → ℕ) :
    r.assign p rank = r.assignBy (r.votes (r.leafAt p)) p rank := rfl

/-- Shard `a` stands above all others that have a vote; without votes it is the owner of the point,
    or else the lightest. -/
def Wins (r : Router ℚ) (vs : List ℕ) (p : ℚ × ℚ) (rank : ℕ → ℕ) (a : ℕ) : Prop :=
  (vs = [] ∧ (r.ownerAt p).getD r.lightest = a) ∨
    a ∈ vs ∧ ∀ n ∈ vs, n ≠ a → r.standing vs rank n < r.standing vs rank a

theorem assignBy_eq_iff {r : Router ℚ} {vs : List ℕ} {p : ℚ × ℚ} {rank : ℕ → ℕ} {a : ℕ} :
    r.assignBy vs p rank = a ↔ r.Wins vs p rank a := by
  unfold assignBy Wins
  cases hm : vs.argmax (r.standing vs rank) with
  | none =>
    obtain rfl := List.argmax_eq_none.1 hm
    simp
  | some m =>
    have hmem : m ∈ vs := List.argmax_mem hm
    have hne : vs ≠ [] := List.ne_nil_of_mem hmem
    simp only [hne, false_and, false_or]
    constructor
    · rintro rfl
      refine ⟨hmem, fun n hn hne => ?_⟩
      have hle : r.standing vs rank n ≤ r.standing vs rank m := List.le_of_mem_argmax hn hm
      exact lt_of_le_of_ne hle fun h => hne (standing_inj h)
    · rintro ⟨ha, h⟩
      by_contra hne
      have hle : r.standing vs rank a ≤ r.standing vs rank m := List.le_of_mem_argmax ha hm
      exact absurd (h m hmem hne) (not_lt.2 hle)

theorem lightest_congr {r r' : Router ℚ} (h : r'.shards = r.shards) :
    r'.lightest = r.lightest := by
  have hload : r'.loadOf = r.loadOf := by
    funext shard
    unfold Router.loadOf Router.handle
    rw [h]
  unfold Router.lightest
  rw [h, hload]

section
variable {N : ℕ} {east : CellKey → Bool} {k : ℤ} {r r' : Router ℚ}

theorem Turned.handle (ht : Turned N east k r r') : r'.handle = r.handle := by
  funext shard
  unfold Router.handle
  rw [ht.shards]

theorem Turned.hasCapacity (ht : Turned N east k r r') : r'.hasCapacity = r.hasCapacity := by
  funext shard
  unfold Router.hasCapacity
  rw [ht.handle, ht.cap]

theorem Turned.standing (ht : Turned N east k r r') : r'.standing = r.standing := by
  funext vs rank shard
  unfold Router.standing
  rw [ht.handle]

variable (hN : 0 < N) (hfit : N ≤ 65534)
include hN hfit

/-- A neighbour of a cell inside belongs to nobody unless it is inside. -/
theorem Inner.neighbour_off (hi : Inner N r) {key : CellKey} (hk : Inside N key) {d : ℤ × ℤ}
    (hd : d ∈ neighbours) (hout : ¬ Inside N (neighbourKey key d)) :
    r.ownerAt (r.centre key d) = none := by
  have hb := hi.baseDeg_pos hN
  have hgrid := gridAt_centre hb key d
  have hnear := near_neighbour hN hfit hk (List.mem_cons_of_mem _ hd)
  refine (hi.ownerAt_off ?_).2
  rw [← hgrid, hi.base] at hnear
  rw [hi.base, cellAt_eq_gridAt hN (Or.inl rfl) hnear, ← hi.base, hgrid]
  exact fun h => hout (h.of_ancestor (ancestor_ancestor _))

/-- The neighbours that vote on a turned leaf. -/
theorem Turned.votes (ht : Turned N east k r r') (hi : Inner N r) {key : CellKey}
    (hk : Inside N key) : r'.votes (turnKey N east k key) = r.seen east k key := by
  have hb := hi.baseDeg_pos hN
  unfold Router.votes seen
  apply List.filterMap_congr
  intro d hd
  have hgrid := gridAt_centre hb key d
  have hnear : Near N (shiftKey (moved N east k (ancestor key)) (ancestor (neighbourKey key d))) :=
    near_turned hN hfit hk (List.mem_cons_of_mem _ hd)
  -- the cell of level 0 that the turned neighbour is in
  have hcell : cellAt r'.baseDeg 0 (r'.centre (turnKey N east k key) d) =
      shiftKey (moved N east k (ancestor key)) (ancestor (neighbourKey key d)) := by
    rw [← hgrid, ← gridAt_shift hb, hi.base] at hnear
    unfold turnKey
    rw [centre_shiftKey ht.base, ht.base, hi.base, cellAt_eq_gridAt hN (Or.inl rfl) hnear,
      ← hi.base, gridAt_shift hb, hgrid]
  rw [hi.base]
  split
  · next hway =>
    by_cases hin : Inside N (neighbourKey key d)
    · have hmoved : moved N east k (ancestor (neighbourKey key d)) =
          moved N east k (ancestor key) := by
        unfold moved
        rw [hway]
      have hin' : Inside N (ancestor (neighbourKey key d)) :=
        hin.of_ancestor (ancestor_ancestor _).symm
      rw [← hgrid, hi.base] at hin' hmoved
      unfold turnKey
      rw [centre_shiftKey ht.base, (ht.at_point hN hfit hi hin' hmoved).2.2, ht.hasCapacity]
    · rw [hi.neighbour_off hN hfit hk hd hin, ht.ownerAt_off]
      · rfl
      · intro κ hκ h
        rw [hcell] at h
        exact hin (eq_of_turned hN hk hd hκ h).1
  · next hway =>
    rw [ht.ownerAt_off]
    · rfl
    · intro κ hκ h
      rw [hcell] at h
      exact hway (eq_of_turned hN hk hd hκ h).2

omit hfit in
/-- Not turned at all, a map away from the cut is its own turn. -/
theorem Inner.turned_self (hi : Inner N r) : Turned N east 0 r r := by
  refine ⟨rfl, rfl, rfl, fun key h => by rw [turnKey_zero hN h],
    fun key h => by rw [turnKey_zero hN h], fun key h => by rw [turnKey_zero hN h],
    fun key i h => ⟨key, hi.owned key i h, (turnKey_zero hN (hi.owned key i h)).symm⟩,
    fun key h => ⟨key, hi.split key h, (turnKey_zero hN (hi.split key h)).symm⟩⟩

/-- The code's own votes are those seen across the cut where it is. -/
theorem Inner.seen_zero (hi : Inner N r) {key : CellKey} (hk : Inside N key) :
    r.seen east 0 key = r.votes key := by
  have hself : Turned N east 0 r r := hi.turned_self hN
  rw [← hself.votes hN hfit hi hk, turnKey_zero hN hk]

/-- Around a cell inside, the neighbours around the earth vote as those in plain degrees do. -/
theorem Inner.votes_eq (hi : Inner N r) {key : CellKey} (hk : Inside N key) :
    r.votes key = r.ringVotes key := by
  have hb : (0 : ℚ) < 360 / N := by positivity
  unfold Router.votes ringVotes
  apply List.filterMap_congr
  intro d hd
  have hgrid : gridAt (360 / N) 0 (r.centre key d) = ancestor (neighbourKey key d) := by
    rw [← hi.base]
    exact gridAt_centre (hi.baseDeg_pos hN) key d
  have hring : r.ringCentre key d =
      shiftPoint (360 / N) (-(N * wraps (360 / N) 0 (r.centre key d).2)) (r.centre key d) := by
    have h := turnPoint_eq hN 0 (r.centre key d)
    unfold turnPoint at h
    rwa [Int.cast_zero, zero_mul, add_zero, zero_sub] at h
  by_cases hin : Inside N (neighbourKey key d)
  · obtain ⟨h1, h2, -, -⟩ := hin
    rw [← hgrid] at h1 h2
    unfold gridAt at h1 h2
    simp only [cellSize_zero] at h1 h2
    rw [hring, wraps_zero hN h1 h2]
    unfold shiftPoint
    rw [mul_zero, neg_zero, Int.cast_zero, zero_mul, add_zero]
  · -- a whole turn away it is not inside either
    set t := -(N * wraps (360 / N) 0 (r.centre key d).2) with ht
    obtain ⟨hrow, -⟩ := near_neighbour hN hfit hk (List.mem_cons_of_mem _ hd)
    have hgrid' : gridAt (360 / N) 0 (r.ringCentre key d) =
        shiftKey t (ancestor (neighbourKey key d)) := by
      rw [hring, gridAt_shift hb, hgrid]
    have hnear : Near N (gridAt (360 / N) 0 (r.ringCentre key d)) := by
      refine ⟨by rw [hgrid']; exact hrow, ?_⟩
      obtain ⟨h1, h2⟩ := wrapLon_mem (r.centre key d).2
      obtain ⟨h3, h4⟩ := column_mem hN h1 h2.le
      unfold western at h3
      unfold eastern at h4
      unfold gridAt ringCentre Small
      simp only [cellSize_zero]
      omega
    have hout : ¬ Inside N (cellAt r.baseDeg 0 (r.ringCentre key d)) := by
      rw [hi.base, cellAt_eq_gridAt hN (Or.inl rfl) hnear, hgrid']
      intro h
      refine not_dvd_of_out hk hd hin h ?_ ?_
      · rw [ancestor_shiftKey, ancestor_ancestor]
        rfl
      · rw [ancestor_shiftKey, ancestor_ancestor]
        refine Dvd.intro (wraps (360 / N) 0 (r.centre key d).2) ?_
        unfold shiftKey
        rw [ht]
        show _ = _ - (_ + -(N * wraps (360 / N) 0 (r.centre key d).2) * 2 ^ 0)
        rw [pow_zero]
        ring
    rw [hi.neighbour_off hN hfit hk hd hin, (hi.ownerAt_off hout).2]

end

end Router

/-! ## Turned runs -/

/-- The position turned by `k` cells of level 0, its longitude taken back to `[-180, 180)`. -/
def Position.turn (baseDeg : ℚ) (k : ℤ) (p : Position) : Position where
  lat := p.lat
  lon := wrapLon (p.lon + k * baseDeg)
  alt := p.alt
  onPlanet := by
    obtain ⟨h1, h2⟩ := wrapLon_mem (p.lon + k * baseDeg)
    have h180 : (180.0 : ℚ) = 180 := by norm_num
    have h := p.onPlanet
    unfold plausiblePosition at h ⊢
    simp only [Bool.and_eq_true, decide_eq_true_eq, h180] at h ⊢
    exact ⟨⟨⟨⟨h.1.1.1.1, h1⟩, h2.le⟩, h.1.2⟩, h.2⟩

namespace Router

def Event.turn (baseDeg : ℚ) (k : ℤ) : Event → Event
  | .call p rank => .call (p.turn baseDeg k) rank
  | .load shard h => .load shard h

/-- The shard a call answers. -/
def answer (r : Router ℚ) : Event → Option ℕ
  | .call p rank => some (r.shardFor p.point rank).2
  | .load _ _ => none

/-- The answers of a run. -/
def answers (r : Router ℚ) : List Event → List (Option ℕ)
  | [] => []
  | e :: es => r.answer e :: answers (step r e) es

/-- A call is between the cells of longitude -180 and of longitude 180. -/
def OffCut (baseDeg : ℚ) : Event → Prop
  | .call p _ => (cellAt baseDeg 0 (p.lat, -180.0)).2.2 < (cellAt baseDeg 0 p.point).2.2 ∧
      (cellAt baseDeg 0 p.point).2.2 < (cellAt baseDeg 0 (p.lat, 180.0)).2.2
  | .load _ _ => True

/-- A call is in the half of its cell that `east` names, unless half a turn is whole cells. -/
def InHalf (baseDeg : ℚ) (east : CellKey → Bool) : Event → Prop
  | .call p _ => OneHalf baseDeg east p
  | .load _ _ => True

/-- A call at a place where no cut goes between it and the half of its cell. -/
structure Placed (baseDeg : ℚ) (east : CellKey → Bool) (e : Event) : Prop where
  offCut : OffCut baseDeg e
  half : InHalf baseDeg east e

/-- A leaf that a call opens goes to the same shard by the votes seen across a turned cut. -/
def AgreesAt (east : CellKey → Bool) (k : ℤ) (r : Router ℚ) : Event → Prop
  | .call p rank => r.map.owner.lookup (r.leafAt p.point) = none →
      r.assignBy (r.seen east k (r.leafAt p.point)) p.point rank = r.assign p.point rank
  | .load _ _ => True

section
variable {N : ℕ} {east : CellKey → Bool} {k : ℤ} {r r' : Router ℚ} (hN : 0 < N)
include hN

section
variable (hfit : N ≤ 65534)
include hfit

/-- At the cut, and before the cast. -/
theorem column_east (lat : ℚ) : (cellAt (360 / N : ℚ) 0 (lat, 180.0)).2.2 = eastern N := by
  have h180 : (180.0 : ℚ) = 180 := by norm_num
  have hfloor := floor_east hN
  have hsmall : Small N ⌊180 / (360 / N : ℚ)⌋ := by
    rw [hfloor]
    unfold eastern Small
    omega
  unfold cellAt
  simp only
  rw [h180, cast_small hN (Or.inl rfl) hsmall, cellSize_zero, hfloor]

theorem column_west (lat : ℚ) : (cellAt (360 / N : ℚ) 0 (lat, -180.0)).2.2 = western N - 1 := by
  have h180 : (-180.0 : ℚ) = -180 := by norm_num
  have hfloor := floor_west hN
  have hsmall : Small N ⌊-180 / (360 / N : ℚ)⌋ := by
    rw [hfloor]
    unfold western Small
    omega
  unfold cellAt
  simp only
  rw [h180, cast_small hN (Or.inl rfl) hsmall, cellSize_zero, hfloor]

theorem near_position (p : Position) : Near N (gridAt (360 / N) 0 p.point) := by
  obtain ⟨⟨h1, h2⟩, h3, h4⟩ := gridAt_position hN p
  unfold western at h1
  unfold eastern at h2
  unfold Near Small
  omega

theorem offCut_iff {p : Position} {rank : ℕ → ℕ} :
    OffCut (360 / N) (.call p rank) ↔ Inside N (gridAt (360 / N) 0 p.point) := by
  obtain ⟨-, h3, h4⟩ := gridAt_position hN p
  unfold OffCut
  simp only
  rw [column_east hN hfit, column_west hN hfit,
    cellAt_eq_gridAt hN (Or.inl rfl) (near_position hN hfit p)]
  constructor
  · rintro ⟨h1, h2⟩
    rw [← ancestor_gridAt _ 0] at h1 h2 h3 h4
    exact ⟨by omega, h2, by omega, by omega⟩
  · rintro ⟨h1, h2, -, -⟩
    rw [ancestor_gridAt] at h1 h2
    omega

/-- Where a call that is placed goes when all is turned. -/
theorem Placed.turn {p : Position} {rank : ℕ → ℕ}
    (hp : Placed (360 / N) east (.call p rank)) :
    Inside N (gridAt (360 / N) 0 p.point) ∧ turnPoint (360 / N) k p.point =
      shiftPoint (360 / N) (moved N east k (gridAt (360 / N) 0 p.point)) p.point := by
  have hcell := cellAt_eq_gridAt hN (Or.inl rfl) (near_position hN hfit p)
  have hcol : (gridAt (360 / N) 0 p.point).2.2 = ⌊p.lon / (360 / N : ℚ)⌋ := by
    unfold gridAt
    simp only [cellSize_zero]
    rfl
  refine ⟨(offCut_iff hN hfit).1 hp.offCut, ?_⟩
  have hway := wraps_eq_way (k := k) hN hp.half (by rw [hcell, hcol])
  rw [hcell] at hway
  rw [turnPoint_eq hN]
  unfold moved
  rw [← hway]
  rfl

/-- A turned call answers alike exactly when the votes seen across the turned cut elect the same
    shard. -/
theorem Turned.answer_iff (ht : Turned N east k r r') (hi : Inner N r) {p : Position}
    {rank : ℕ → ℕ} (hp : Placed r.baseDeg east (.call p rank)) :
    r'.answer (Event.turn r.baseDeg k (.call p rank)) = r.answer (.call p rank) ↔
      AgreesAt east k r (.call p rank) := by
  rw [hi.base] at hp
  obtain ⟨hin, hturn⟩ := hp.turn (k := k) hN hfit
  obtain ⟨hleaf, hleaf', howner⟩ := ht.at_point hN hfit hi hin rfl
  have hanswer : r'.answer (Event.turn r.baseDeg k (.call p rank)) =
      some (r'.chosen (turnPoint r.baseDeg k p.point) rank) := rfl
  have hanswer' : r.answer (.call p rank) = some (r.chosen p.point rank) := rfl
  rw [hi.base] at hleaf' howner
  rw [hanswer, hanswer', Option.some.injEq, hi.base, hturn]
  have hassign : r'.assign (shiftPoint (360 / N) (moved N east k (gridAt (360 / N) 0 p.point))
      p.point) rank = r.assignBy (r.seen east k (r.leafAt p.point)) p.point rank := by
    rw [assign_eq, hleaf', ht.votes hN hfit hi hleaf]
    unfold assignBy
    rw [ht.standing, lightest_congr ht.shards, howner]
  unfold AgreesAt chosen
  rw [hleaf', ht.owner _ hleaf, hassign]
  cases hl : r.map.owner.lookup (r.leafAt p.point) with
  | some i => simp [hl]
  | none => simp [hl]

/-- The runs stay one another's turn while they answer alike. -/
theorem Turned.step (ht : Turned N east k r r') (hi : Inner N r) {p : Position} {rank : ℕ → ℕ}
    (hp : Placed r.baseDeg east (.call p rank))
    (ha : r'.answer (Event.turn r.baseDeg k (.call p rank)) = r.answer (.call p rank)) :
    Turned N east k (Router.step r (.call p rank))
      (Router.step r' (Event.turn r.baseDeg k (.call p rank))) := by
  rw [hi.base] at hp
  obtain ⟨hin, hturn⟩ := hp.turn (k := k) hN hfit
  obtain ⟨hleaf, hleaf', -⟩ := ht.at_point hN hfit hi hin rfl
  set p' := p.turn r.baseDeg k with hp'
  have hpoint : p'.point = turnPoint r.baseDeg k p.point := rfl
  rw [hi.base] at hleaf' hpoint
  rw [← hturn, ← hpoint] at hleaf'
  have hchosen : r'.chosen p'.point rank = r.chosen p.point rank := Option.some.inj ha
  have hcount := ht.rxCount _ hleaf
  have hkey {key : CellKey} (hkey : Inside N key) :
      turnKey N east k key = turnKey N east k (r.leafAt p.point) ↔ key = r.leafAt p.point :=
    ⟨turnKey_inj hkey hleaf, fun h => by rw [h]⟩
  show Turned N east k (r.shardFor p.point rank).1 (r'.shardFor p'.point rank).1
  have hsplit' : (r'.shardFor p'.point rank).1.map.split =
      if splitAt < (r.map.rxCount.lookup (r.leafAt p.point)).getD 0 + 1 ∧
          splittable r.baseDeg (r.leafAt p.point).1 then
        insert (turnKey N east k (r.leafAt p.point)) r'.map.split else r'.map.split := by
    unfold shardFor claim
    simp only
    rw [hleaf', hcount, ht.base]
    rfl
  refine ⟨ht.base, ?_, ht.cap, ?_, ?_, ?_, ?_, ?_⟩
  · unfold shardFor
    simp only
    rw [hchosen, ht.shards]
  · intro key hk
    unfold shardFor
    simp only
    rw [claim_owner, claim_owner, hleaf', hchosen]
    exact Finmap.lookup_insert_map (hkey hk).1 (ht.owner key hk) _
  · intro key hk
    unfold shardFor claim
    simp only
    rw [hleaf', hcount]
    exact Finmap.lookup_insert_map (hkey hk).1 (ht.rxCount key hk) _
  · intro key hk
    rw [hsplit']
    unfold shardFor claim
    simp only
    split
    · rw [Finset.mem_insert, Finset.mem_insert, hkey hk, ht.split key hk]
    · exact ht.split key hk
  · intro key i
    unfold shardFor
    simp only
    rw [claim_owner, hleaf', Finmap.lookup_insert_ite]
    split
    · next h => exact fun _ => ⟨_, hleaf, h⟩
    · exact ht.owned_of key i
  · intro key
    rw [hsplit']
    split
    · rw [Finset.mem_insert]
      rintro (rfl | h)
      · exact ⟨_, hleaf, rfl⟩
      · exact ht.split_of key h
    · exact ht.split_of key

/-- The leaf around a call off the cut is inside. -/
theorem Inner.leaf_inside (hi : Inner N r) {p : Position} {rank : ℕ → ℕ}
    (hp : OffCut r.baseDeg (.call p rank)) : Inside N (r.leafAt p.point) := by
  rw [hi.base, offCut_iff hN hfit] at hp
  have hcell : r.leafAt p.point = gridAt (360 / N) (r.leafLevel p.point) p.point := by
    rw [← cellAt_eq_gridAt hN (hi.coarse p.point le_rfl) (near_position hN hfit p), ← hi.base]
    rfl
  rw [hcell]
  exact hp.of_ancestor (by rw [ancestor_gridAt, ancestor_gridAt])

/-- Calls off the cut keep the map away from it. -/
theorem Inner.step (hi : Inner N r) {e : Event} (he : OffCut r.baseDeg e) :
    Inner N (Router.step r e) := by
  cases e with
  | load shard h => exact { hi with }
  | call p rank =>
    have hleaf := hi.leaf_inside hN hfit he
    have hsplit : ∀ key ∈ (r.shardFor p.point rank).1.map.split, key ∈ r.map.split ∨
        key = r.leafAt p.point ∧ splittable r.baseDeg key.1 = true := by
      intro key
      unfold shardFor claim
      simp only
      split
      · next hc =>
        rw [Finset.mem_insert]
        rintro (rfl | h)
        · exact Or.inr ⟨rfl, hc.2⟩
        · exact Or.inl h
      · exact Or.inl
    show Inner N (r.shardFor p.point rank).1
    refine ⟨hi.base, shardFor_rooted hi.rooted p rank, fun key hk => ?_, fun key i => ?_,
      fun key hk => ?_⟩
    · rcases hsplit key hk with h | ⟨-, h⟩
      · exact hi.large key h
      · exact few_of_splittable hN (hi.base ▸ h)
    · unfold shardFor
      simp only
      rw [claim_owner, Finmap.lookup_insert_ite]
      split
      · next h =>
        intro _
        rw [h]
        exact hleaf
      · exact hi.owned key i
    · rcases hsplit key hk with h | ⟨rfl, -⟩
      · exact hi.split key h
      · exact hleaf

end

end

/-! ## The meridian has one owner -/

/-- Longitudes 180 and -180 have the same owner. -/
def LineShared (r : Router ℚ) : Prop :=
  ∀ lat, r.ownerOfPoint (lat, 180.0) = r.ownerOfPoint (lat, -180.0)

section
variable {N : ℕ} {r : Router ℚ} (hN : 0 < N) (hfit : N ≤ 65534)
include hN hfit

theorem line_off (lat : ℚ) : ¬ Inside N (cellAt (360 / N : ℚ) 0 (lat, 180.0)) ∧
    ¬ Inside N (cellAt (360 / N : ℚ) 0 (lat, -180.0)) := by
  have heast := column_east hN hfit lat
  have hwest := column_west hN hfit lat
  constructor
  · rintro ⟨-, h, -, -⟩
    rw [ancestor_zero rfl, heast] at h
    exact lt_irrefl _ h
  · rintro ⟨h, -, -, -⟩
    rw [ancestor_zero rfl, hwest] at h
    omega

theorem Inner.lineShared (hi : Inner N r) : LineShared r := by
  intro lat
  obtain ⟨heast, hwest⟩ := line_off hN hfit lat
  rw [← hi.base] at heast hwest
  exact (hi.ownerAt_off heast).2.trans (hi.ownerAt_off hwest).2.symm

/-- A call takes one side of the meridian alone, unless it is off the cut. -/
theorem step_lineShared_iff (hi : Inner N r) (e : Event) :
    LineShared (Router.step r e) ↔ OffCut r.baseDeg e := by
  refine ⟨fun h => ?_, fun he => (hi.step hN hfit he).lineShared hN hfit⟩
  cases e with
  | load shard hd => trivial
  | call p rank =>
    by_contra hcut
    rw [hi.base, offCut_iff hN hfit] at hcut
    obtain ⟨⟨hlo, hhi⟩, hrow1, hrow2⟩ := gridAt_position hN p
    have hcell : cellAt r.baseDeg 0 p.point = gridAt (360 / N) 0 p.point := by
      rw [hi.base]
      exact cellAt_eq_gridAt hN (Or.inl rfl) (near_position hN hfit p)
    obtain ⟨hleaf, -⟩ := hi.ownerAt_off (q := p.point) (by rwa [hcell])
    obtain ⟨heast, hwest⟩ := line_off hN hfit p.lat
    rw [← hi.base] at heast hwest
    obtain ⟨heast, heast'⟩ := hi.ownerAt_off heast
    obtain ⟨hwest, hwest'⟩ := hi.ownerAt_off hwest
    have hcol := column_east hN hfit p.lat
    have hcol' := column_west hN hfit p.lat
    rw [← hi.base] at hcol hcol'
    -- the two sides of the meridian are cells of their own
    have hne : cellAt r.baseDeg 0 (p.lat, 180.0) ≠ cellAt r.baseDeg 0 (p.lat, -180.0) := by
      intro heq
      have h1 : (cellAt r.baseDeg 0 (p.lat, 180.0)).2.2 =
          (cellAt r.baseDeg 0 (p.lat, -180.0)).2.2 := congrArg (·.2.2) heq
      rw [hcol, hcol'] at h1
      unfold western eastern at h1
      omega
    have hline := h p.lat
    have howner (q : ℚ × ℚ) : (Router.step r (.call p rank)).ownerOfPoint q =
        if r.leafAt q = r.leafAt p.point then some (r.chosen p.point rank)
        else r.ownerOfPoint q := shardFor_owner hi.rooted p rank q
    have heast'' : r.ownerOfPoint (p.lat, 180.0) = none := heast'
    have hwest'' : r.ownerOfPoint (p.lat, -180.0) = none := hwest'
    rw [howner, howner, heast, hwest, hleaf, heast'', hwest''] at hline
    have hside : (cellAt r.baseDeg 0 p.point).2.2 = eastern N ∨
        (cellAt r.baseDeg 0 p.point).2.2 = western N - 1 := by
      rw [hcell]
      by_contra hin
      refine hcut ⟨?_, ?_, ?_, ?_⟩
      all_goals
        rw [ancestor_gridAt]
        omega
    rcases hside with hside | hside
    · have hsame : cellAt r.baseDeg 0 (p.lat, 180.0) = cellAt r.baseDeg 0 p.point :=
        Prod.ext rfl (Prod.ext rfl (hcol.trans hside.symm))
      rw [if_pos hsame, if_neg (hsame ▸ hne.symm)] at hline
      cases hline
    · have hsame : cellAt r.baseDeg 0 (p.lat, -180.0) = cellAt r.baseDeg 0 p.point :=
        Prod.ext rfl (Prod.ext rfl (hcol'.trans hside.symm))
      rw [if_pos hsame, if_neg (hsame ▸ hne)] at hline
      cases hline

end

/-! ## Runs -/

/-- All neighbours that can be on the near side of a cut elect one shard for a leaf that a call
    opens, wherever the cut is. -/
def ElectsOne (east : CellKey → Bool) (r : Router ℚ) : Event → Prop
  | .call p rank => r.map.owner.lookup (r.leafAt p.point) = none →
      ∃ a, ∀ k, r.Wins (r.seen east k (r.leafAt p.point)) p.point rank a
  | .load _ _ => True

/-- The cells fit the cast, once around the earth, or a call is the first or in the only cell. -/
def Fits (r : Router ℚ) : Event → Prop
  | .call p _ => 360.0 ≤ 65534.0 * r.baseDeg ∨
      ∀ key i, r.map.owner.lookup key = some i → key = r.leafAt p.point
  | .load _ _ => True

/-- A call away from the cut that is answered alike wherever the cut is. -/
structure Clear (east : CellKey → Bool) (r : Router ℚ) (e : Event) : Prop where
  fits : r.Fits e
  placed : Placed r.baseDeg east e
  elects : r.ElectsOne east e

/-- The cut of longitude does not show: all turned by whole cells, every call is answered alike;
    each new cell counts its eight neighbours around the earth; the meridian has one owner. -/
structure CutUnseen (r : Router ℚ) (es : List Event) : Prop where
  turned : ∀ k : ℤ, answers r (es.map (Event.turn r.baseDeg k)) = answers r es
  counted : ∀ n p rank, es[n]? = some (.call p rank) →
    (r.stateAt es n).map.owner.lookup ((r.stateAt es n).leafAt p.point) = none →
    (r.stateAt es n).votes ((r.stateAt es n).leafAt p.point) =
      (r.stateAt es n).ringVotes ((r.stateAt es n).leafAt p.point)
  line : ∀ n, LineShared (r.stateAt es n)

section
variable {N : ℕ} {east : CellKey → Bool} {k : ℤ} {r r' : Router ℚ} (hN : 0 < N)
  (hfit : N ≤ 65534)
include hN hfit

theorem electsOne_iff (hi : Inner N r) {e : Event} (he : OffCut r.baseDeg e) :
    r.ElectsOne east e ↔ ∀ k, AgreesAt east k r e := by
  cases e with
  | load shard h => exact ⟨fun _ _ => trivial, fun _ => trivial⟩
  | call p rank =>
    have hzero : r.seen east 0 (r.leafAt p.point) = r.votes (r.leafAt p.point) :=
      hi.seen_zero hN hfit (hi.leaf_inside hN hfit he)
    constructor
    · intro h k hl
      obtain ⟨a, ha⟩ := h hl
      rw [assign_eq, ← hzero, assignBy_eq_iff.2 (ha k), assignBy_eq_iff.2 (ha 0)]
    · intro h hl
      exact ⟨r.assign p.point rank, fun k => assignBy_eq_iff.1 (h k hl)⟩

/-- A run off the cut and its turn answer alike exactly when every leaf opened goes to the same
    shard by the votes seen across the turned cut. -/
theorem answers_turn_iff (ht : Turned N east k r r') (hi : Inner N r) {es : List Event}
    (hplaced : Run.Steps step (fun r e => Placed r.baseDeg east e) r es) :
    answers r' (es.map (Event.turn (360 / N) k)) = answers r es ↔
      Run.Steps step (AgreesAt east k) r es := by
  induction es generalizing r r' with
  | nil => exact ⟨fun _ => trivial, fun _ => rfl⟩
  | cons e es ih =>
    obtain ⟨he, hes⟩ := hplaced
    have hi' := hi.step hN hfit he.offCut
    show r'.answer (e.turn (360 / N) k) :: answers (Router.step r' _) _ =
        r.answer e :: answers (Router.step r e) es ↔
      AgreesAt east k r e ∧ Run.Steps step (AgreesAt east k) (Router.step r e) es
    rw [List.cons.injEq]
    cases e with
    | load shard h =>
      have ht' : Turned N east k (Router.step r (.load shard h))
          (Router.step r' (.load shard h)) :=
        { ht with shards := congrArg (·.set shard h) ht.shards }
      exact and_congr ⟨fun _ => trivial, fun _ => rfl⟩ (ih ht' hi' hes)
    | call p rank =>
      have hanswer := ht.answer_iff hN hfit hi he
      have hstep := ht.step hN hfit hi he
      rw [hi.base] at hanswer hstep
      rw [hanswer]
      exact and_congr_right fun hagree => ih (hstep (hanswer.2 hagree)) hi' hes

theorem fits_of_le (hbase : r.baseDeg = 360 / N) (e : Event) : r.Fits e := by
  cases e with
  | load shard h => trivial
  | call p rank =>
    refine Or.inl ?_
    have h : (N : ℚ) ≤ 65534 := by exact_mod_cast hfit
    rw [hbase, mul_div_assoc', le_div_iff₀ (by positivity)]
    norm_num
    linarith

end

theorem new_inner (shards : List ShardHandle) (N cap : ℕ) :
    Inner N (Router.new shards (360 / N) cap) where
  base := rfl
  rooted := new_rooted shards _ cap
  large key h := absurd h (Finset.notMem_empty key)
  owned key i h := by cases (Finmap.lookup_empty _).symm.trans h
  split key h := absurd h (Finset.notMem_empty key)

theorem new_turned (shards : List ShardHandle) (N cap : ℕ) (east : CellKey → Bool) (k : ℤ) :
    Turned N east k (Router.new shards (360 / N) cap) (Router.new shards (360 / N) cap) where
  base := rfl
  shards := rfl
  cap := rfl
  owner _ _ := rfl
  rxCount _ _ := rfl
  split key _ :=
    iff_of_false (Finset.notMem_empty (turnKey N east k key)) (Finset.notMem_empty key)
  owned_of key i h := by cases (Finmap.lookup_empty _).symm.trans h
  split_of key h := absurd h (Finset.notMem_empty key)

/-- Where the cells fit the cast and every call is in one half of its cell. -/
theorem cutUnseen_iff_of_half (shards : List ShardHandle) (N cap : ℕ) (hN : 0 < N)
    (hfit : N ≤ 65534) (east : CellKey → Bool) {es : List Event}
    (hhalf : Run.Steps step (fun r e => InHalf r.baseDeg east e)
      (Router.new shards (360 / N) cap) es) :
    CutUnseen (Router.new shards (360 / N) cap) es ↔
      Run.Steps step (Clear east) (Router.new shards (360 / N) cap) es := by
  set r := Router.new shards (360 / N : ℚ) cap with hr
  have hi : Inner N r := new_inner shards N cap
  have hstep : ∀ s e, Inner N s → OffCut s.baseDeg e → Inner N (step s e) :=
    fun s e hs he => hs.step hN hfit he
  have hline : (∀ n, LineShared (r.stateAt es n)) ↔
      Run.Steps step (fun r e => OffCut r.baseDeg e) r es :=
    Run.forall_take_iff_steps (A := fun _ => True)
      (fun s e _ hs _ h => hstep s e hs ((step_lineShared_iff hN hfit hs e).1 h))
      (fun s e _ hs _ => step_lineShared_iff hN hfit hs e) hi (hi.lineShared hN hfit)
      fun _ _ => trivial
  have hturned (hoff : Run.Steps step (fun r e => OffCut r.baseDeg e) r es) :
      (∀ k : ℤ, answers r (es.map (Event.turn r.baseDeg k)) = answers r es) ↔
        Run.Steps step (ElectsOne east) r es := by
    have hplaced : Run.Steps step (fun r e => Placed r.baseDeg east e) r es :=
      ((Run.steps_and r es).2 ⟨hoff, hhalf⟩).mono fun _ _ h => ⟨h.1, h.2⟩
    rw [Run.steps_congr_of_steps hstep (fun s e hs he => electsOne_iff hN hfit hs he) hi hoff,
      Run.steps_forall]
    exact forall_congr' fun k =>
      answers_turn_iff hN hfit (new_turned shards N cap east k) hi hplaced
  constructor
  · intro h
    have hoff := hline.1 h.line
    have hfits : Run.Steps step Fits r es :=
      (Run.steps_congr (I := fun s => s.baseDeg = (360 / N : ℚ)) (C := fun _ _ => True)
        (fun s e hs => (step_baseDeg s e).trans hs)
        (fun s e hs => iff_of_true trivial (fits_of_le hN hfit hs e)) rfl es).1
        (Run.steps_of_forall (fun _ _ => trivial) r es)
    have hall := (Run.steps_and r es).2 ⟨(Run.steps_and r es).2 ⟨hoff, hhalf⟩,
      (Run.steps_and r es).2 ⟨hfits, (hturned hoff).1 h.turned⟩⟩
    exact hall.mono fun _ _ h => ⟨h.2.1, ⟨h.1.1, h.1.2⟩, h.2.2⟩
  · intro h
    have hoff : Run.Steps step (fun r e => OffCut r.baseDeg e) r es :=
      h.mono fun _ _ h => h.placed.offCut
    refine ⟨(hturned hoff).2 (h.mono fun _ _ h => h.elects), fun n p rank he _ => ?_, hline.2 hoff⟩
    have hin : Inner N (r.stateAt es n) := Run.invariant_of_steps hstep hi (hoff.take n)
    exact hin.votes_eq hN hfit (hin.leaf_inside hN hfit (hoff.getElem he))

/-! ## Cells past the cast -/

/-- All receivers so far were between the cells of longitude -180 and of longitude 180, in cells
    too small to split. -/
structure Lone (N : ℕ) (r : Router ℚ) : Prop where
  base : r.baseDeg = 360 / N
  whole : r.map.split = ∅
  offCut : ∀ key i, r.map.owner.lookup key = some i → ∃ p rank,
    OffCut r.baseDeg (.call p rank) ∧ key = cellAt r.baseDeg 0 p.point

/-- The map of `r'` is that of `r` turned by `k` cells, as long as it has one cell. -/
structure LoneTurned (east : CellKey → Bool) (k : ℤ) (r r' : Router ℚ) : Prop where
  base : r'.baseDeg = r.baseDeg
  shards : r'.shards = r.shards
  whole : r'.map.split = ∅
  empty : (∀ key, r.map.owner.lookup key = none) → ∀ key, r'.map.owner.lookup key = none
  owner : ∀ p rank i, Placed r.baseDeg east (.call p rank) →
    r.map.owner.lookup (cellAt r.baseDeg 0 p.point) = some i →
    r'.map.owner.lookup (cellAt r.baseDeg 0 (turnPoint r.baseDeg k p.point)) = some i

theorem leafAt_of_whole {r : Router ℚ} (h : r.map.split = ∅) (q : ℚ × ℚ) :
    r.leafAt q = cellAt r.baseDeg 0 q := by
  have hlevel : CellTree.leafLevel (cellAt r.baseDeg) r.map.split q = 0 := by
    rw [h]
    rfl
  unfold leafAt CellTree.leaf
  rw [hlevel]

/-- On an empty map nobody votes. -/
theorem votes_of_empty {r : Router ℚ} (h : r.map.split = ∅)
    (hnone : ∀ key, r.map.owner.lookup key = none) (c : ℤ × ℤ → ℚ × ℚ) :
    (neighbours.filterMap fun d => (r.ownerAt (c d)).filter r.hasCapacity) = [] := by
  rw [List.filterMap_eq_nil_iff]
  intro d _
  rw [(ownerAt_of_off (h ▸ Finset.notMem_empty _) (hnone _)).2]
  rfl

theorem assign_of_empty {r : Router ℚ} (h : r.map.split = ∅)
    (hnone : ∀ key, r.map.owner.lookup key = none) (q : ℚ × ℚ) (rank : ℕ → ℕ) :
    r.assign q rank = r.lightest := by
  have hvotes : r.votes (r.leafAt q) = [] :=
    votes_of_empty h hnone (r.centre (r.leafAt q))
  have howner := (ownerAt_of_off (q := q) (h ▸ Finset.notMem_empty _) (hnone _)).2
  rw [assign_eq, hvotes]
  unfold assignBy
  rw [howner]
  rfl

/-- A column between the two sides of the cut is not cast. -/
theorem column_of_offCut {baseDeg : ℚ} {p : Position} {rank : ℕ → ℕ}
    (hp : OffCut baseDeg (.call p rank)) :
    (cellAt baseDeg 0 p.point).2.2 = ⌊p.lon / baseDeg⌋ := by
  obtain ⟨h1, h2⟩ := hp
  unfold cellAt Position.point at h1 h2 ⊢
  simp only [asI16_floor, cellSize_zero] at h1 h2 ⊢
  unfold F64.saturate at h1 h2 ⊢
  omega

section
variable {N : ℕ} {east : CellKey → Bool} {k : ℤ} {r r' : Router ℚ}

theorem Lone.lineShared (hl : Lone N r) : LineShared r := by
  intro lat
  have hoff : ∀ q : ℚ × ℚ, (∀ p rank, OffCut r.baseDeg (.call p rank) →
      cellAt r.baseDeg 0 q ≠ cellAt r.baseDeg 0 p.point) → r.ownerOfPoint q = none := by
    intro q hq
    refine (ownerAt_of_off (hl.whole ▸ Finset.notMem_empty _) ?_).2
    refine Option.eq_none_iff_forall_ne_some.2 fun i h => ?_
    obtain ⟨p, rank, h1, h2⟩ := hl.offCut _ i h
    exact hq p rank h1 h2
  rw [hoff (lat, 180.0), hoff (lat, -180.0)]
  · intro p rank hp heq
    exact hp.1.ne (congrArg (·.2.2) heq)
  · intro p rank hp heq
    exact hp.2.ne (congrArg (·.2.2) heq).symm

variable (hN : 0 < N)
include hN

/-- Where calls in one half of one cell go when all is turned. -/
theorem cellAt_turn {p q : Position} {rank rank' : ℕ → ℕ}
    (hp : Placed (360 / N) east (.call p rank)) (hq : Placed (360 / N) east (.call q rank'))
    (h : cellAt (360 / N : ℚ) 0 p.point = cellAt (360 / N : ℚ) 0 q.point) :
    cellAt (360 / N : ℚ) 0 (turnPoint (360 / N) k p.point) =
      cellAt (360 / N : ℚ) 0 (turnPoint (360 / N) k q.point) := by
  have hb : (0 : ℚ) < 360 / N := by positivity
  have hp' := column_of_offCut hp.offCut
  have hq' := column_of_offCut hq.offCut
  have hway : wraps (360 / N) k p.point.2 = wraps (360 / N) k q.point.2 := by
    have h1 := wraps_eq_way (k := k) hN hp.half hp'
    have h2 := wraps_eq_way (k := k) hN hq.half hq'
    rw [h] at h1
    exact h1.trans h2.symm
  have hfloor : ⌊p.lon / (360 / N : ℚ)⌋ = ⌊q.lon / (360 / N : ℚ)⌋ := by
    rw [← hp', ← hq', h]
  have hcol {x : Position} (t : ℤ) : (gridAt (360 / N) 0 (shiftPoint (360 / N) t x.point)).2.2 =
      ⌊x.lon / (360 / N : ℚ)⌋ + t := by
    rw [gridAt_shift hb]
    unfold shiftKey gridAt
    simp only [cellSize_zero, pow_zero, mul_one]
    rfl
  refine Prod.ext rfl (Prod.ext (congrArg (·.2.1) h) ?_)
  rw [turnPoint_eq hN, turnPoint_eq hN, hway]
  unfold cellAt
  simp only [asI16_floor]
  have hsame := (hcol (x := p) (k - N * wraps (360 / N) k q.point.2)).trans
    ((congrArg (· + _) hfloor).trans (hcol (x := q) (k - N * wraps (360 / N) k q.point.2)).symm)
  unfold gridAt at hsame
  simp only at hsame
  rw [hsame]

variable (hpast : 65534 < N)
include hpast

/-- Cells past the cast are too small to split. -/
theorem not_splittable : splittable (360 / N : ℚ) 0 = false := by
  have h : (65534 : ℚ) < N := by exact_mod_cast hpast
  unfold splittable minCellDeg
  rw [decide_eq_false_iff_not, not_le, cellSize_eq, div_div, div_lt_iff₀ (by positivity)]
  norm_num
  linarith

theorem alone_of_fits (hl : Lone N r) {p : Position} {rank : ℕ → ℕ}
    (h : r.Fits (.call p rank)) {key : CellKey} {i : ℕ}
    (hi : r.map.owner.lookup key = some i) : key = r.leafAt p.point := by
  rcases h with h | h
  · have h1 : (65534 : ℚ) < N := by exact_mod_cast hpast
    rw [hl.base, mul_div_assoc', le_div_iff₀ (by positivity)] at h
    norm_num at h
    linarith
  · exact h key i hi

theorem claim_whole (hbase : r.baseDeg = 360 / N) (hwhole : r.map.split = ∅) (q : ℚ × ℚ)
    (shard : ℕ) : (r.claim (r.leafAt q) shard).split = ∅ := by
  have hsplit : splittable r.baseDeg (r.leafAt q).1 = false := by
    rw [leafAt_of_whole hwhole q, hbase]
    exact not_splittable hN hpast
  unfold claim
  simp only [hsplit, Bool.false_eq_true, and_false, if_false]
  exact hwhole

theorem Lone.step (hl : Lone N r) {e : Event} (he : OffCut r.baseDeg e) :
    Lone N (Router.step r e) := by
  cases e with
  | load shard h => exact { hl with }
  | call p rank =>
    refine ⟨hl.base, claim_whole hN hpast hl.base hl.whole p.point _, fun key i => ?_⟩
    show (r.claim (r.leafAt p.point) (r.chosen p.point rank)).owner.lookup key = some i → _
    rw [claim_owner, Finmap.lookup_insert_ite]
    split
    · next h => exact fun _ => ⟨p, rank, he, h.trans (leafAt_of_whole hl.whole _)⟩
    · exact hl.offCut key i

/-- A call in the only cell is answered alike. -/
theorem LoneTurned.chosen_eq (ht : LoneTurned east k r r') (hl : Lone N r) {p : Position}
    {rank : ℕ → ℕ} (hfits : r.Fits (.call p rank)) (hp : Placed r.baseDeg east (.call p rank)) :
    r'.chosen (turnPoint r.baseDeg k p.point) rank = r.chosen p.point rank := by
  have hleaf := leafAt_of_whole hl.whole p.point
  have hleaf' := leafAt_of_whole ht.whole (turnPoint r.baseDeg k p.point)
  rw [ht.base] at hleaf'
  cases ho : r.map.owner.lookup (r.leafAt p.point) with
  | some i =>
    have ho' := ho
    rw [hleaf] at ho'
    have hi := ht.owner p rank i hp ho'
    rw [← hleaf'] at hi
    rw [(chosen_of_claimed rank ho).1, (chosen_of_claimed rank hi).1]
  | none =>
    have hnone : ∀ key, r.map.owner.lookup key = none := by
      intro key
      refine Option.eq_none_iff_forall_ne_some.2 fun i hi => ?_
      have h := alone_of_fits hN hpast hl hfits hi
      rw [h, ho] at hi
      cases hi
    have hnone' := ht.empty hnone
    unfold chosen
    rw [ho, hnone' _]
    show r'.assign _ rank = r.assign p.point rank
    rw [assign_of_empty ht.whole hnone', assign_of_empty hl.whole hnone, lightest_congr ht.shards]

/-- So is every call after it. -/
theorem LoneTurned.step (ht : LoneTurned east k r r') (hl : Lone N r) {p : Position}
    {rank : ℕ → ℕ} (hfits : r.Fits (.call p rank)) (hp : Placed r.baseDeg east (.call p rank)) :
    LoneTurned east k (Router.step r (.call p rank))
      (Router.step r' (Event.turn r.baseDeg k (.call p rank))) := by
  have hchosen := ht.chosen_eq hN hpast hl hfits hp
  have hleaf := leafAt_of_whole hl.whole p.point
  have hleaf' := leafAt_of_whole ht.whole (turnPoint r.baseDeg k p.point)
  rw [ht.base] at hleaf'
  show LoneTurned east k (r.shardFor p.point rank).1
    (r'.shardFor (turnPoint r.baseDeg k p.point) rank).1
  refine ⟨ht.base, ?_, ?_, fun h => ?_, fun q rank' i hq => ?_⟩
  · unfold shardFor
    simp only
    rw [hchosen, ht.shards]
  · exact claim_whole hN hpast (ht.base.trans hl.base) ht.whole _ _
  · have h1 := h (r.leafAt p.point)
    unfold shardFor at h1
    simp only at h1
    rw [claim_owner, Finmap.lookup_insert_ite, if_pos rfl] at h1
    cases h1
  · unfold shardFor
    simp only
    rw [claim_owner, claim_owner, Finmap.lookup_insert_ite, Finmap.lookup_insert_ite, hleaf, hleaf',
      hchosen]
    split
    · next h =>
      have hq : Placed r.baseDeg east (.call q rank') := hq
      rw [hl.base] at hp hq h ⊢
      rw [if_pos (cellAt_turn hN hq hp h)]
      exact id
    · next h => exact fun hi => absurd ((alone_of_fits hN hpast hl hfits hi).trans hleaf) h

/-- A run in one cell and its turn answer alike. -/
theorem LoneTurned.answers_eq (ht : LoneTurned east k r r') (hl : Lone N r) {es : List Event}
    (h : Run.Steps Router.step (Clear east) r es) :
    answers r' (es.map (Event.turn (360 / N) k)) = answers r es := by
  induction es generalizing r r' with
  | nil => rfl
  | cons e es ih =>
    obtain ⟨he, hes⟩ := h
    have hl' := hl.step hN hpast he.placed.offCut
    show r'.answer (e.turn (360 / N) k) :: answers (Router.step r' _) _ =
      r.answer e :: answers (Router.step r e) es
    cases e with
    | load shard h =>
      have ht' : LoneTurned east k (Router.step r (.load shard h))
          (Router.step r' (.load shard h)) :=
        { ht with shards := congrArg (·.set shard h) ht.shards }
      exact congrArg (none :: ·) (ih ht' hl' hes)
    | call p rank =>
      have hchosen := ht.chosen_eq hN hpast hl he.fits he.placed
      have hstep := ht.step hN hpast hl he.fits he.placed
      rw [hl.base] at hchosen hstep
      have hanswer : r'.answer (Event.turn (360 / N) k (.call p rank)) =
          r.answer (.call p rank) := congrArg some hchosen
      rw [hanswer, ih hstep hl' hes]

end

theorem new_lone (shards : List ShardHandle) (N cap : ℕ) :
    Lone N (Router.new shards (360 / N) cap) where
  base := rfl
  whole := rfl
  offCut key i h := by cases (Finmap.lookup_empty _).symm.trans h

theorem new_loneTurned (shards : List ShardHandle) (N cap : ℕ) (east : CellKey → Bool) (k : ℤ) :
    LoneTurned east k (Router.new shards (360 / N) cap) (Router.new shards (360 / N) cap) where
  base := rfl
  shards := rfl
  whole := rfl
  empty h := h
  owner p rank i _ h := by cases (Finmap.lookup_empty _).symm.trans h

/-- Past the cast, the cut does not show while there is one cell. -/
theorem cutUnseen_of_lone (shards : List ShardHandle) (N cap : ℕ) (hN : 0 < N)
    (hpast : 65534 < N) {east : CellKey → Bool} {es : List Event}
    (h : Run.Steps step (Clear east) (Router.new shards (360 / N) cap) es) :
    CutUnseen (Router.new shards (360 / N) cap) es := by
  set r := Router.new shards (360 / N : ℚ) cap with hr
  have hlone (n : ℕ) : Lone N (r.stateAt es n) :=
    Run.invariant_of_steps (fun s e hs he => hs.step hN hpast he.placed.offCut)
      (new_lone shards N cap) (h.take n)
  refine ⟨fun k => ?_, fun n p rank he hnone => ?_, fun n => (hlone n).lineShared⟩
  · exact (new_loneTurned shards N cap east k).answers_eq hN hpast (new_lone shards N cap) h
  · have hall : ∀ key, (r.stateAt es n).map.owner.lookup key = none := by
      intro key
      refine Option.eq_none_iff_forall_ne_some.2 fun i hi => ?_
      have hkey := alone_of_fits hN hpast (hlone n) (h.getElem he).fits hi
      rw [hkey, hnone] at hi
      cases hi
    exact (votes_of_empty (hlone n).whole hall _).trans (votes_of_empty (hlone n).whole hall _).symm

/-- **Where longitude is cut** does not show, whatever the number of cells to the turn, in the runs
    whose calls are clear of the cut; and in no others, as far as the cells fit the cast and every
    one is called from one half. -/
theorem cutUnseen_of_clear (shards : List ShardHandle) (N cap : ℕ) (hN : 0 < N)
    (east : CellKey → Bool) (es : List Event) :
    (Run.Steps step (Clear east) (Router.new shards (360 / N) cap) es →
      CutUnseen (Router.new shards (360 / N) cap) es) ∧
    (N ≤ 65534 →
      Run.Steps step (fun r e => InHalf r.baseDeg east e) (Router.new shards (360 / N) cap) es →
      CutUnseen (Router.new shards (360 / N) cap) es →
      Run.Steps step (Clear east) (Router.new shards (360 / N) cap) es) := by
  constructor
  · intro h
    by_cases hfit : N ≤ 65534
    · exact (cutUnseen_iff_of_half shards N cap hN hfit east
        (h.mono fun _ _ h => h.placed.half)).2 h
    · exact cutUnseen_of_lone shards N cap hN (not_le.1 hfit) h
  · intro hfit hhalf
    exact (cutUnseen_iff_of_half shards N cap hN hfit east hhalf).1

/-- A call with the votes of one shard alone, the one that takes it without votes, elects one. -/
theorem electsOne_of_votes {east : CellKey → Bool} {r : Router ℚ} {p : Position} {rank : ℕ → ℕ}
    {a : ℕ} (hvotes : ∀ n ∈ r.votes (r.leafAt p.point), n = a)
    (helse : (r.ownerAt p.point).getD r.lightest = a) : r.ElectsOne east (.call p rank) := by
  intro _
  refine ⟨a, fun k => ?_⟩
  have hsub : ∀ n ∈ r.seen east k (r.leafAt p.point), n = a := by
    intro n hn
    apply hvotes
    obtain ⟨d, hd, h⟩ := List.mem_filterMap.1 hn
    split at h
    · exact List.mem_filterMap.2 ⟨d, hd, h⟩
    · cases h
  cases hs : r.seen east k (r.leafAt p.point) with
  | nil => exact Or.inl ⟨rfl, helse⟩
  | cons n vs =>
    rw [hs] at hsub
    obtain rfl := hsub n List.mem_cons_self
    exact Or.inr ⟨List.mem_cons_self, fun m hm hne => absurd (hsub m hm) hne⟩

def fourthCell : Position := ⟨40, 33, 0, by decide +kernel⟩
def fourthAgain : Position := ⟨42.5, 35.5, 0, by decide +kernel⟩
def fifthCell : Position := ⟨41, 41.3, 0, by decide +kernel⟩

/-- Three receivers in the western halves of two cells of eight degrees, forty-five to the turn,
    while the other shard has more. -/
def twoCells : List Event :=
  [.load 1 ⟨40, 9⟩, .call fourthCell id, .call fourthAgain id, .call fifthCell id]

theorem cutUnseen_two_cells :
    CutUnseen (Router.new [⟨0, 0⟩, ⟨0, 0⟩] (360 / (45 : ℕ)) 64) twoCells := by
  refine (cutUnseen_of_clear [⟨0, 0⟩, ⟨0, 0⟩] 45 64 (by decide) (fun _ => false) _).1
    ⟨⟨trivial, ⟨trivial, trivial⟩, trivial⟩, ⟨?_, ?_, ?_⟩, ⟨?_, ?_, ?_⟩, ⟨?_, ?_, ?_⟩, trivial⟩
  · exact Or.inl (by decide +kernel)
  · exact ⟨⟨by decide +kernel, by decide +kernel⟩, Or.inr (by decide +kernel)⟩
  · exact electsOne_of_votes (a := 0) (by decide +kernel) (by decide +kernel)
  · exact Or.inl (by decide +kernel)
  · exact ⟨⟨by decide +kernel, by decide +kernel⟩, Or.inr (by decide +kernel)⟩
  · exact electsOne_of_votes (a := 0) (by decide +kernel) (by decide +kernel)
  · exact Or.inl (by decide +kernel)
  · exact ⟨⟨by decide +kernel, by decide +kernel⟩, Or.inr (by decide +kernel)⟩
  · exact electsOne_of_votes (a := 0) (by decide +kernel) (by decide +kernel)

/-! ## A region across the antimeridian -/

def westOfCut : Position := ⟨1, 179, 0, by decide +kernel⟩
def eastOfCut : Position := ⟨1, -179, 0, by decide +kernel⟩

/-- Two receivers two degrees apart, one on each side. -/
def acrossTheCut : List Event := [.call westOfCut id, .call eastOfCut id]

/-- They go to two shards, where turned by half a turn they share one. -/
theorem region_cut_in_two :
    ¬ ∀ (shards : List ShardHandle) (baseDeg : ℚ) (cap : ℕ) (es : List Event),
      (∃ n : ℕ, 0 < n ∧ baseDeg * n = 360) → CutUnseen (Router.new shards baseDeg cap) es := by
  intro h
  have h1 := (h [⟨0, 0⟩, ⟨0, 0⟩] 5 64 acrossTheCut ⟨72, by decide, by norm_num⟩).turned 36
  exact absurd h1 (by decide +kernel)

end Router

end Mlatd
