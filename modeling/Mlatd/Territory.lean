/-
  Who owns a point, over every run of the router (shard.rs, Router::shard_for).

  The cells the router claims and splits are a tree that grew from its leaves: `shardFor_owner`
  says all that a call changes, the owner of the points in the leaf it is answered from. A point
  with an owner keeps it unless a call opens an unclaimed leaf inside an owned cell and the
  neighbours elect another shard: `StaysHome` rules that out, and `territory_kept_iff` says it is
  exactly what keeps every territory.
-/
import Mlatd.Lib.Run
import Mlatd.Router

namespace Mlatd

namespace Router

/-! ## Cells over exact arithmetic -/

theorem cellAt_levelled {F : Type} [F64 F] (baseDeg : F) : CellTree.Levelled (cellAt baseDeg) :=
  fun _ _ _ _ h => congrArg Prod.fst h

theorem asI16_floor (x : ℚ) :
    F64.asI16 (F64.floor x) = F64.saturate (-32768) 32767 ⌊x⌋ := by
  unfold F64.asI16
  show F64.saturate _ _ (if (0 : ℚ) ≤ (⌊x⌋ : ℚ) then ⌊(⌊x⌋ : ℚ)⌋ else ⌈(⌊x⌋ : ℚ)⌉) = _
  rw [Int.floor_intCast, Int.ceil_intCast, ite_self]

/-- The cast is exact inside its range. -/
theorem saturate_eq_iff {n y : ℤ} (h1 : -32768 < y) (h2 : y < 32767) :
    F64.saturate (-32768) 32767 n = y ↔ n = y := by
  unfold F64.saturate
  omega

/-- Halving a size doubles an index. -/
theorem floor_half (x s : ℚ) : ⌊x / (s / 2)⌋ / 2 = ⌊x / s⌋ := by
  rw [div_div_eq_mul_div, mul_div_right_comm]
  exact Int.mul_natCast_floor_div_cancel (n := 2) (by decide) (x / s)

/-- In one coordinate, the halves of a cell in range are inside no other cell. -/
theorem index_of_half {a b s : ℚ} {y : ℤ} (h1 : -16000 < y) (h2 : y < 16000)
    (ha : F64.asI16 (F64.floor (a / s)) = y)
    (hab : F64.asI16 (F64.floor (a / (s / 2))) = F64.asI16 (F64.floor (b / (s / 2)))) :
    F64.asI16 (F64.floor (b / s)) = y := by
  rw [asI16_floor, saturate_eq_iff (by omega) (by omega)] at ha ⊢
  have h3 := floor_half a s
  have h4 := floor_half b s
  rw [asI16_floor, asI16_floor] at hab
  have h5 : ⌊b / (s / 2)⌋ = ⌊a / (s / 2)⌋ := by
    rw [← saturate_eq_iff (y := ⌊a / (s / 2)⌋) (by omega) (by omega), ← hab,
      saturate_eq_iff (by omega) (by omega)]
  omega

theorem cellSize_succ (baseDeg : ℚ) (level : ℕ) :
    cellSize baseDeg (level + 1) = cellSize baseDeg level / 2 := by
  show baseDeg / (((2 ^ (level + 1) : ℕ) : ℤ) : ℚ) = baseDeg / (((2 ^ level : ℕ) : ℤ) : ℚ) / 2
  rw [div_div]
  congr 1
  push_cast
  ring

/-- A coordinate on the planet has a small index in cells of a degree and more. -/
theorem index_small {x s : ℚ} (hx : -180 ≤ x) (hx' : x ≤ 180) (hs : 1 ≤ s) :
    -16000 < F64.asI16 (F64.floor (x / s)) ∧ F64.asI16 (F64.floor (x / s)) < 16000 := by
  have hs0 : 0 < s := by linarith
  have h1 : (-180 : ℤ) ≤ ⌊x / s⌋ := by
    rw [Int.le_floor, le_div_iff₀ hs0]
    push_cast
    linarith
  have h2 : ⌊x / s⌋ < 181 := by
    rw [Int.floor_lt, div_lt_iff₀ hs0]
    push_cast
    linarith
  rw [asI16_floor]
  unfold F64.saturate
  omega

end Router

/-- A position the handshake accepts. -/
structure Position where
  lat : ℚ
  lon : ℚ
  alt : ℚ
  onPlanet : plausiblePosition lat lon alt = true

namespace Position

def point (p : Position) : ℚ × ℚ := (p.lat, p.lon)

theorem bounds (p : Position) : (-90 ≤ p.lat ∧ p.lat ≤ 90) ∧ -180 ≤ p.lon ∧ p.lon ≤ 180 := by
  have h := p.onPlanet
  unfold plausiblePosition at h
  simp only [Bool.and_eq_true, decide_eq_true_eq] at h
  norm_num at h
  tauto

end Position

namespace Router

/-- A cell around a receiver that may split has its halves to itself. -/
theorem cellAt_separates {baseDeg : ℚ} {level : ℕ} (hs : splittable baseDeg level = true)
    (p : Position) :
    CellTree.Separates (cellAt baseDeg) (cellAt baseDeg level p.point) := by
  have hsize : 4 ≤ cellSize baseDeg level := by
    have h1 : (2.0 : ℚ) ≤ cellSize baseDeg (level + 1) := of_decide_eq_true hs
    rw [cellSize_succ] at h1
    norm_num at h1
    linarith
  obtain ⟨⟨h1, h2⟩, h3, h4⟩ := p.bounds
  have hone : 1 ≤ cellSize baseDeg level := by linarith
  have hlat := index_small (by linarith : -180 ≤ p.lat) (by linarith) hone
  have hlon := index_small h3 h4 hone
  intro l a b ha hab
  have hl : l = level := cellAt_levelled baseDeg _ _ _ _ ha
  subst hl
  simp only [cellAt, cellSize_succ, Prod.mk.injEq] at ha hab ⊢
  refine ⟨trivial, ?_, ?_⟩
  · exact index_of_half hlat.1 hlat.2 ha.2.1 hab.2.1
  · exact index_of_half hlon.1 hlon.2 ha.2.2 hab.2.2

/-! ## What a call changes -/

/-- The router's cells grew from their leaves. -/
def Rooted (r : Router ℚ) : Prop :=
  CellTree.Rooted (cellAt r.baseDeg) r.map.owner r.map.split

theorem new_rooted (shards : List ShardHandle) (baseDeg : ℚ) (cap : ℕ) :
    Rooted (Router.new shards baseDeg cap) :=
  CellTree.Rooted.empty

/-- A call leaves its leaf with the shard it answers. -/
theorem claim_owner (r : Router ℚ) (p : ℚ × ℚ) (rank : ℕ → ℕ) :
    (r.claim (r.leafAt p) (r.chosen p rank)).owner =
      r.map.owner.insert (r.leafAt p) (r.chosen p rank) := by
  unfold claim chosen
  cases h : r.map.owner.lookup (r.leafAt p) with
  | none => rfl
  | some i =>
    apply Finmap.ext_lookup
    intro k
    simp only [Option.isSome_some, if_true, Finmap.lookup_insert_ite]
    split
    · next hk => rw [hk, h]
    · rfl

theorem claim_split (r : Router ℚ) (p : Position) (shard : ℕ) :
    (r.claim (r.leafAt p.point) shard).split = r.map.split ∨
      (r.claim (r.leafAt p.point) shard).split = insert (r.leafAt p.point) r.map.split ∧
        CellTree.Separates (cellAt r.baseDeg) (r.leafAt p.point) := by
  unfold claim
  simp only
  split
  · next h => exact Or.inr ⟨rfl, cellAt_separates h.2 p⟩
  · exact Or.inl rfl

theorem shardFor_rooted {r : Router ℚ} (hr : Rooted r) (p : Position) (rank : ℕ → ℕ) :
    Rooted (r.shardFor p.point rank).1 := by
  unfold Rooted shardFor
  simp only [claim_owner]
  exact CellTree.Rooted.grow (cellAt_levelled r.baseDeg) hr _ (claim_split r p _)

/-- All that a call changes: the points of its leaf belong to the shard it answers. -/
theorem shardFor_owner {r : Router ℚ} (hr : Rooted r) (p : Position) (rank : ℕ → ℕ)
    (q : ℚ × ℚ) :
    (r.shardFor p.point rank).1.ownerOfPoint q =
      if r.leafAt q = r.leafAt p.point then some (r.chosen p.point rank)
      else r.ownerOfPoint q := by
  unfold ownerOfPoint ownerAt shardFor
  simp only [claim_owner]
  exact CellTree.ownerAt_grow (cellAt_levelled r.baseDeg) hr _ (claim_split r p _) q

/-- A call that finds its leaf claimed answers the leaf's shard. -/
theorem chosen_of_claimed {r : Router ℚ} {p : ℚ × ℚ} (rank : ℕ → ℕ) {i : ℕ}
    (h : r.map.owner.lookup (r.leafAt p) = some i) :
    r.chosen p rank = i ∧ r.ownerOfPoint p = some i := by
  refine ⟨?_, CellTree.ownerAt_of_leaf_owned h⟩
  unfold chosen
  rw [h]

/-! ## The vote -/

theorem standing_inj {r : Router ℚ} {vs : List ℕ} {rank : ℕ → ℕ} {m n : ℕ}
    (h : r.standing vs rank m = r.standing vs rank n) : m = n := by
  unfold standing at h
  simp only [EmbeddingLike.apply_eq_iff_eq, Prod.mk.injEq] at h
  exact h.2.2.2.2

/-- Shard `a` has a vote and stands above every other shard that has one. -/
def Prevails (r : Router ℚ) (vs : List ℕ) (rank : ℕ → ℕ) (a : ℕ) : Prop :=
  ∀ n ∈ vs, n ≠ a → a ∈ vs ∧ r.standing vs rank n < r.standing vs rank a

/-- A new leaf inside the territory of `a` goes to `a` exactly when `a` prevails. -/
theorem assign_eq_iff {r : Router ℚ} {p : ℚ × ℚ} {rank : ℕ → ℕ} {a : ℕ}
    (ha : r.ownerOfPoint p = some a) :
    r.assign p rank = a ↔ r.Prevails (r.votes (r.leafAt p)) rank a := by
  have ha : r.ownerAt p = some a := ha
  unfold assign elect
  simp only [ha, Option.getD_some]
  set vs := r.votes (r.leafAt p)
  cases hm : vs.argmax (r.standing vs rank) with
  | none =>
    have hnil := List.argmax_eq_none.1 hm
    simp only [true_iff]
    intro n hn
    rw [hnil] at hn
    cases hn
  | some m =>
    have hmem : m ∈ vs := List.argmax_mem hm
    simp only
    constructor
    · rintro rfl n hn hne
      have hle : r.standing vs rank n ≤ r.standing vs rank m := List.le_of_mem_argmax hn hm
      exact ⟨hmem, lt_of_le_of_ne hle fun h => hne (standing_inj h)⟩
    · intro h
      by_contra hne
      obtain ⟨h1, h2⟩ := h m hmem hne
      have hle : r.standing vs rank a ≤ r.standing vs rank m := List.le_of_mem_argmax h1 hm
      exact absurd h2 (not_lt.2 hle)

/-! ## Runs -/

inductive Event where
  | call (p : Position) (rank : ℕ → ℕ)
  /-- A shard's receiver count and rate move. -/
  | load (shard : ℕ) (h : ShardHandle)

def step (r : Router ℚ) : Event → Router ℚ
  | .call p rank => (r.shardFor p.point rank).1
  | .load shard h => { r with shards := r.shards.set shard h }

/-- The router before event `n` of a run. -/
def stateAt (r : Router ℚ) (es : List Event) (n : ℕ) : Router ℚ := Run.exec step r (es.take n)

theorem step_rooted (r : Router ℚ) (e : Event) (hr : Rooted r) : Rooted (step r e) := by
  cases e with
  | call p rank => exact shardFor_rooted hr p rank
  | load shard h => exact hr

/-- Every point with an owner has the same one after the step. -/
def Keeps (r r' : Router ℚ) : Prop :=
  ∀ p i, r.ownerOfPoint p = some i → r'.ownerOfPoint p = some i

/-- When a call opens a leaf nobody has claimed inside the territory of a shard, every other shard
    that has capacity and neighbouring cells stands below that shard. -/
def StaysHome (r : Router ℚ) : Event → Prop
  | .call p rank => r.map.owner.lookup (r.leafAt p.point) = none →
      ∀ a, r.ownerOfPoint p.point = some a → r.Prevails (r.votes (r.leafAt p.point)) rank a
  | .load _ _ => True

/-- A call that stays home answers the owner of its position, if it has one. -/
theorem chosen_of_staysHome {r : Router ℚ} {p : Position} {rank : ℕ → ℕ}
    (h : r.StaysHome (.call p rank)) {a : ℕ} (ha : r.ownerOfPoint p.point = some a) :
    r.chosen p.point rank = a := by
  cases hl : r.map.owner.lookup (r.leafAt p.point) with
  | some i =>
    obtain ⟨h1, h2⟩ := chosen_of_claimed rank hl
    rw [h1]
    exact Option.some.inj (h2.symm.trans ha)
  | none =>
    unfold chosen
    rw [hl]
    exact (assign_eq_iff ha).2 (h hl a ha)

theorem step_keeps_iff {r : Router ℚ} (hr : Rooted r) (e : Event) :
    Keeps r (step r e) ↔ r.StaysHome e := by
  cases e with
  | load shard h => exact ⟨fun _ => trivial, fun _ _ _ hp => hp⟩
  | call p rank =>
    constructor
    · intro h hl a ha
      have h1 := h p.point a ha
      have h2 : (r.shardFor p.point rank).1.ownerOfPoint p.point =
          some (r.chosen p.point rank) := by
        rw [shardFor_owner hr, if_pos rfl]
      have h3 : r.chosen p.point rank = a := Option.some.inj (h2.symm.trans h1)
      unfold chosen at h3
      rw [hl] at h3
      exact (assign_eq_iff ha).1 h3
    · intro h q i hi
      show (r.shardFor p.point rank).1.ownerOfPoint q = some i
      rw [shardFor_owner hr]
      split
      · next hq =>
        have h1 : r.ownerOfPoint p.point = some i := by
          rw [← hi]
          exact (CellTree.ownerAt_congr (cellAt_levelled r.baseDeg) hr hq).symm
        rw [chosen_of_staysHome h h1]
      · exact hi

theorem stateAt_rooted {r : Router ℚ} (hr : Rooted r) (es : List Event) (n : ℕ) :
    Rooted (r.stateAt es n) :=
  Run.invariant step_rooted hr (es.take n)

theorem stateAt_succ {r : Router ℚ} {es : List Event} {n : ℕ} {e : Event}
    (h : es[n]? = some e) : r.stateAt es (n + 1) = step (r.stateAt es n) e := by
  obtain ⟨hn, rfl⟩ := List.getElem?_eq_some_iff.1 h
  exact Run.exec_take_succ r es n hn

/-- Once a point has an owner it keeps it; a call inside a territory is answered by its owner, the
    same position always by the same shard, and no other shard may publish there. -/
structure TerritoryKept (r : Router ℚ) (es : List Event) : Prop where
  owner : ∀ m n, m ≤ n → ∀ p i, (r.stateAt es m).ownerOfPoint p = some i →
    (r.stateAt es n).ownerOfPoint p = some i
  child : ∀ n p rank i, es[n]? = some (.call p rank) →
    (r.stateAt es n).ownerOfPoint p.point = some i → (r.stateAt es n).chosen p.point rank = i
  same : ∀ m n p q rank rank', m < n → es[m]? = some (.call p rank) →
    es[n]? = some (.call q rank') → q.point = p.point →
    (r.stateAt es n).chosen q.point rank' = (r.stateAt es m).chosen p.point rank
  inside : ∀ m n p rank, m < n → es[m]? = some (.call p rank) → ∀ shard,
    (r.stateAt es n).mayPublish shard p.point = true ↔
      shard = (r.stateAt es m).chosen p.point rank

/-- A run keeps the owner of every point exactly when each of its calls stays home. -/
theorem keeps_iff_steps {r : Router ℚ} (hr : Rooted r) (es : List Event) :
    (∀ m n, m ≤ n → Keeps (r.stateAt es m) (r.stateAt es n)) ↔ Run.Steps step StaysHome r es := by
  have h1 := @Run.forall_le_iff_steps _ _ step Keeps (fun _ _ _ h => h)
    (fun _ _ _ h h' p i hp => h' p i (h p i hp)) r es
  exact h1.trans (Run.steps_congr step_rooted (fun _ e hr => step_keeps_iff hr e) hr es)

/-- **Territory never changes hands** in exactly the runs whose calls stay home. -/
theorem territory_kept_iff (shards : List ShardHandle) (baseDeg : ℚ) (cap : ℕ)
    (es : List Event) :
    TerritoryKept (Router.new shards baseDeg cap) es ↔
      Run.Steps step StaysHome (Router.new shards baseDeg cap) es := by
  set r := Router.new shards baseDeg cap with hrdef
  have hr : Rooted r := new_rooted shards baseDeg cap
  rw [← keeps_iff_steps hr es]
  refine ⟨fun h => h.owner, fun h => ?_⟩
  have hsteps := (keeps_iff_steps hr es).1 h
  have hchild : ∀ n p rank i, es[n]? = some (.call p rank) →
      (r.stateAt es n).ownerOfPoint p.point = some i →
      (r.stateAt es n).chosen p.point rank = i :=
    fun n p rank i he hi => chosen_of_staysHome (hsteps.getElem he) hi
  have hafter : ∀ m n p rank, m < n → es[m]? = some (.call p rank) →
      (r.stateAt es n).ownerOfPoint p.point = some ((r.stateAt es m).chosen p.point rank) := by
    intro m n p rank hmn he
    refine h (m + 1) n hmn _ _ ?_
    rw [stateAt_succ he]
    show ((r.stateAt es m).shardFor p.point rank).1.ownerOfPoint p.point = _
    rw [shardFor_owner (stateAt_rooted hr es m), if_pos rfl]
  refine ⟨h, hchild, fun m n p q rank rank' hmn he he' hq => ?_, fun m n p rank hmn he shard => ?_⟩
  · refine hchild n q rank' _ he' ?_
    rw [hq]
    exact hafter m n p rank hmn he
  · unfold mayPublish
    rw [hafter m n p rank hmn he]
    simp only [decide_eq_true_eq]
    exact eq_comm

/-! ## A child that leaves home -/

def eastOfGreenwich : Position := ⟨1, 1, 0, by decide +kernel⟩
def southOfEquator : Position := ⟨-1, 1, 0, by decide +kernel⟩

/-- Sixty-five receivers in one cell fill shard 0 and split the cell; the next one south starts
    shard 1 there; a receiver back in the split cell opens a child of it. -/
def crowdedCell : List Event :=
  List.replicate 65 (.call eastOfGreenwich id) ++
    [.call southOfEquator id, .call eastOfGreenwich id]

/-- The child goes to its southern neighbours' shard, over the full shard it was cut from. -/
theorem child_leaves_home :
    ¬ TerritoryKept (Router.new [⟨0, 0⟩, ⟨0, 0⟩] 8 64) crowdedCell := by
  intro h
  have h1 := h.owner 66 67 (by decide) (1, 1) 0 (by decide +kernel)
  exact absurd h1 (by decide +kernel)

end Router

end Mlatd
