/-
  Ownership of nested cells.

  Points are covered by cells of every level, `cell l p` being the one of level `l` around `p`.
  Some cells are split: around a point the split cells are those of the first levels, and the
  first unsplit one is its leaf. A point belongs to the owner of its leaf or, if that has none, of
  the nearest owned cell above it. `Rooted` is the invariant of cells that are claimed and split
  as leaves only: what a claim then changes is said once, by `ownerAt_grow`. Trees that differ by
  a renaming of their cells have leaves of one level (`leafLevel_rename`) and the same owners.
-/
import Mathlib.Data.Finset.Card
import Mlatd.Lib.Finmap

namespace CellTree

variable {P K O : Type} [DecidableEq K] (cell : ℕ → P → K)

/-- The first level from `level` up whose cell around `p` is not split, at most `n` levels up. -/
def leafFrom (split : Finset K) (p : P) : ℕ → ℕ → ℕ
  | 0, level => level
  | n + 1, level => if cell level p ∈ split then leafFrom split p n (level + 1) else level

/-- The level of the leaf around `p`. -/
def leafLevel (split : Finset K) (p : P) : ℕ := leafFrom cell split p split.card 0

/-- The deepest unsplit cell around `p`. -/
def leaf (split : Finset K) (p : P) : K := cell (leafLevel cell split p) p

/-- The owner of the deepest owned cell around `p` among levels `level` to 0. -/
def ownerFrom (owner : HashMap K O) (p : P) : ℕ → Option O
  | 0 => owner.lookup (cell 0 p)
  | level + 1 =>
    match owner.lookup (cell (level + 1) p) with
    | some o => some o
    | none => ownerFrom owner p level

/-- The owner of the leaf around `p`, else of the nearest owned cell above. -/
def ownerAt (owner : HashMap K O) (split : Finset K) (p : P) : Option O :=
  ownerFrom cell owner p (leafLevel cell split p)

/-! ## Leaves -/

/-- A cell is of one level. -/
def Levelled : Prop := ∀ l m p q, cell l p = cell m q → l = m

variable {cell}

/-- The search for the leaf ends at the first unsplit level, unless it runs out first. -/
theorem leafFrom_spec (split : Finset K) (p : P) (n level : ℕ) :
    level ≤ leafFrom cell split p n level ∧
      (∀ l, level ≤ l → l < leafFrom cell split p n level → cell l p ∈ split) ∧
      (cell (leafFrom cell split p n level) p ∉ split ∨
        leafFrom cell split p n level = level + n) := by
  induction n generalizing level with
  | zero => exact ⟨le_rfl, fun l h1 h2 => absurd h2 (not_lt.2 h1), Or.inr rfl⟩
  | succ n ih =>
    unfold leafFrom
    split
    · next h =>
      obtain ⟨h1, h2, h3⟩ := ih (level + 1)
      refine ⟨by omega, fun l hl hl' => ?_, h3.imp_right fun h => by omega⟩
      by_cases he : l = level
      · rw [he]
        exact h
      · exact h2 l (by omega) hl'
    · next h => exact ⟨le_rfl, fun l h1 h2 => absurd h2 (not_lt.2 h1), Or.inl h⟩

/-- There are no more split levels around a point than split cells: the search never runs out. -/
theorem leaf_spec (hl : Levelled cell) (split : Finset K) (p : P) :
    leaf cell split p ∉ split ∧ ∀ l < leafLevel cell split p, cell l p ∈ split := by
  obtain ⟨-, h1, h2⟩ := @leafFrom_spec _ _ _ cell split p split.card 0
  have hbelow : ∀ l < leafLevel cell split p, cell l p ∈ split := fun l h => h1 l (Nat.zero_le l) h
  refine ⟨?_, hbelow⟩
  rcases h2 with h2 | h2
  · exact h2
  · -- the levels below and the leaf itself would be one split cell too many
    intro hmem
    have hall : ∀ l ∈ Finset.range (split.card + 1), cell l p ∈ split := by
      intro l h
      rw [Finset.mem_range] at h
      have h3 : leafLevel cell split p = split.card := by
        unfold leafLevel
        omega
      by_cases he : l = split.card
      · rw [he, ← h3]
        exact hmem
      · exact hbelow l (by omega)
    have hcard := Finset.card_le_card_of_injOn (fun l => cell l p) hall
      fun l _ m _ h => hl l m p p h
    rw [Finset.card_range] at hcard
    omega

theorem leafLevel_unique (hl : Levelled cell) {split : Finset K} {p : P} {k : ℕ}
    (h : cell k p ∉ split) (hbelow : ∀ l < k, cell l p ∈ split) :
    leafLevel cell split p = k := by
  obtain ⟨h1, h2⟩ := leaf_spec hl split p
  rcases Nat.lt_trichotomy (leafLevel cell split p) k with h3 | h3 | h3
  · exact absurd (hbelow _ h3) h1
  · exact h3
  · exact absurd (h2 k h3) h

/-! ## Renamed cells -/

section
variable {cell' : ℕ → P → K} {τ : K → K} {owner owner' : HashMap K O} {split split' : Finset K}
  {p p' : P}

/-- Where the cells around `p'` are those around `p` renamed, and as many of them split, the leaves
    are of one level. -/
theorem leafLevel_rename (hl : Levelled cell) (hl' : Levelled cell')
    (hcell : ∀ l ≤ leafLevel cell split p, cell' l p' = τ (cell l p))
    (hsplit : ∀ l ≤ leafLevel cell split p, τ (cell l p) ∈ split' ↔ cell l p ∈ split) :
    leafLevel cell' split' p' = leafLevel cell split p := by
  obtain ⟨hleaf, hbelow⟩ := leaf_spec hl split p
  apply leafLevel_unique hl'
  · rw [hcell _ le_rfl, hsplit _ le_rfl]
    exact hleaf
  · intro l h
    rw [hcell l h.le, hsplit l h.le]
    exact hbelow l h

theorem ownerFrom_rename {n : ℕ} (hcell : ∀ l ≤ n, cell' l p' = τ (cell l p))
    (howner : ∀ l ≤ n, owner'.lookup (τ (cell l p)) = owner.lookup (cell l p)) :
    ownerFrom cell' owner' p' n = ownerFrom cell owner p n := by
  induction n with
  | zero =>
    unfold ownerFrom
    rw [hcell 0 le_rfl, howner 0 le_rfl]
  | succ n ih =>
    unfold ownerFrom
    rw [hcell (n + 1) le_rfl, howner (n + 1) le_rfl,
      ih (fun l h => hcell l (Nat.le_succ_of_le h)) fun l h => howner l (Nat.le_succ_of_le h)]

end

/-! ## Trees that grew from their leaves -/

/-- The cells inside `k` are inside no other cell of its level. -/
def Separates (cell : ℕ → P → K) (k : K) : Prop :=
  ∀ l p q, cell l p = k → cell (l + 1) p = cell (l + 1) q → cell l q = k

/-- Split cells separate, and a cell is claimed or split only inside split ones. -/
structure Rooted (cell : ℕ → P → K) (owner : HashMap K O) (split : Finset K) : Prop where
  separates : ∀ k ∈ split, Separates cell k
  split_up : ∀ l p, cell (l + 1) p ∈ split → cell l p ∈ split
  owner_up : ∀ l p o, owner.lookup (cell (l + 1) p) = some o → cell l p ∈ split

theorem Rooted.empty : Rooted cell (∅ : HashMap K O) ∅ where
  separates k hk := absurd hk (Finset.notMem_empty k)
  split_up l p h := absurd h (Finset.notMem_empty _)
  owner_up l p o h := by
    rw [Finmap.lookup_empty] at h
    cases h

section
variable {owner : HashMap K O} {split : Finset K} {p q : P}

/-- Two points of one leaf are in the same cells above it. -/
theorem cell_eq_of_leaf_eq (hl : Levelled cell) (hr : Rooted cell owner split)
    (h : leaf cell split p = leaf cell split q) :
    leafLevel cell split p = leafLevel cell split q ∧
      ∀ l ≤ leafLevel cell split q, cell l p = cell l q := by
  have hlevel := hl _ _ p q h
  refine ⟨hlevel, fun l hle => ?_⟩
  obtain ⟨d, hd⟩ := Nat.exists_eq_add_of_le hle
  -- from the leaf down, by the separation of the split cell below
  induction d generalizing l with
  | zero =>
    have h1 : l = leafLevel cell split q := by omega
    rw [h1]
    unfold leaf at h
    rwa [hlevel] at h
  | succ d ih =>
    have h1 := ih (l + 1) (by omega) (by omega)
    have h2 := (leaf_spec hl split q).2 l (by omega)
    exact hr.separates _ h2 l q p rfl h1.symm

theorem ownerFrom_congr {n : ℕ} (hcell : ∀ l ≤ n, cell l p = cell l q) :
    ownerFrom cell owner p n = ownerFrom cell owner q n := by
  induction n with
  | zero =>
    unfold ownerFrom
    rw [hcell 0 le_rfl]
  | succ n ih =>
    unfold ownerFrom
    rw [hcell (n + 1) le_rfl, ih fun l h => hcell l (Nat.le_succ_of_le h)]

/-- Whoever owns a point owns a cell around it. -/
theorem exists_of_ownerFrom {n : ℕ} {o : O} (h : ownerFrom cell owner p n = some o) :
    ∃ l, owner.lookup (cell l p) = some o := by
  induction n with
  | zero => exact ⟨_, h⟩
  | succ n ih =>
    unfold ownerFrom at h
    split at h
    · next o' ho =>
      rw [← h]
      exact ⟨_, ho⟩
    · exact ih h

/-- A point inside an owned cell of level 0 has an owner. -/
theorem ownerFrom_of_base {o : O} (h : owner.lookup (cell 0 p) = some o) (n : ℕ) :
    ∃ o', ownerFrom cell owner p n = some o' := by
  induction n with
  | zero => exact ⟨o, h⟩
  | succ n ih =>
    unfold ownerFrom
    split
    · next o' _ => exact ⟨o', rfl⟩
    · exact ih

/-- The cells above a split one are split. -/
theorem Rooted.split_above (hr : Rooted cell owner split) {l m : ℕ} (hle : m ≤ l)
    (h : cell l p ∈ split) : cell m p ∈ split := by
  induction l with
  | zero =>
    obtain rfl : m = 0 := by omega
    exact h
  | succ l ih =>
    by_cases he : m = l + 1
    · rw [he]
      exact h
    · exact ih (by omega) (hr.split_up l p h)

/-- Two points of one leaf have one owner. -/
theorem ownerAt_congr (hl : Levelled cell) (hr : Rooted cell owner split)
    (h : leaf cell split p = leaf cell split q) :
    ownerAt cell owner split p = ownerAt cell owner split q := by
  obtain ⟨h1, h2⟩ := cell_eq_of_leaf_eq hl hr h
  unfold ownerAt
  rw [h1]
  exact ownerFrom_congr h2

theorem ownerAt_of_leaf_owned {o : O}
    (h : owner.lookup (leaf cell split p) = some o) : ownerAt cell owner split p = some o := by
  unfold ownerAt
  unfold leaf at h
  cases hn : leafLevel cell split p with
  | zero =>
    rw [hn] at h
    exact h
  | succ n =>
    rw [hn] at h
    unfold ownerFrom
    rw [h]

/-- A cell that is not the point's own at any level up to `n` may get any owner. -/
theorem ownerFrom_insert_of_ne {k : K} (o : O) {n : ℕ} (h : ∀ l ≤ n, cell l p ≠ k) :
    ownerFrom cell (owner.insert k o) p n = ownerFrom cell owner p n := by
  induction n with
  | zero =>
    unfold ownerFrom
    rw [Finmap.lookup_insert_of_ne _ (h 0 le_rfl)]
  | succ n ih =>
    unfold ownerFrom
    rw [Finmap.lookup_insert_of_ne _ (h (n + 1) le_rfl), ih fun l hl => h l (Nat.le_succ_of_le hl)]

/-- What a claim of the leaf around `q` for `o`, with or without splitting it, does to the owner
    of a point: those of the leaf belong to `o`, the others to whom they belonged. -/
theorem ownerAt_grow (hl : Levelled cell) (hr : Rooted cell owner split) (o : O)
    {split' : Finset K}
    (hs : split' = split ∨ split' = insert (leaf cell split q) split ∧
      Separates cell (leaf cell split q)) (p : P) :
    ownerAt cell (owner.insert (leaf cell split q) o) split' p =
      if leaf cell split p = leaf cell split q then some o
      else ownerAt cell owner split p := by
  obtain ⟨hleaf, hbelow⟩ := leaf_spec hl split p
  have hmem : ∀ k, k ∈ split → k ∈ split' := by
    intro k hk
    rcases hs with rfl | ⟨rfl, -⟩
    · exact hk
    · exact Finset.mem_insert_of_mem hk
  split
  · next heq =>
    by_cases hsplit : leaf cell split q ∈ split'
    · -- the leaf is split: the owner is found one level up from a leaf nobody owns
      have hs' : split' = insert (leaf cell split q) split ∧
          Separates cell (leaf cell split q) := by
        refine hs.resolve_left fun h => ?_
        rw [h, ← heq] at hsplit
        exact hleaf hsplit
      have hne : cell (leafLevel cell split p + 1) p ≠ leaf cell split q := by
        intro h
        rw [← heq] at h
        have h1 := hl _ _ p p h
        omega
      have hsub : cell (leafLevel cell split p + 1) p ∉ split' := by
        rw [hs'.1, Finset.mem_insert, not_or]
        exact ⟨hne, fun h => hleaf (hr.split_up _ p h)⟩
      have hlevel : leafLevel cell split' p = leafLevel cell split p + 1 := by
        refine leafLevel_unique hl hsub fun l h => ?_
        by_cases he : l = leafLevel cell split p
        · rw [he]
          show leaf cell split p ∈ split'
          rw [heq]
          exact hsplit
        · exact hmem _ (hbelow l (by omega))
      have hnone : (owner.insert (leaf cell split q) o).lookup
          (cell (leafLevel cell split p + 1) p) = none := by
        rw [Finmap.lookup_insert_of_ne _ hne]
        cases ho : owner.lookup (cell (leafLevel cell split p + 1) p) with
        | none => rfl
        | some o' => exact absurd (hr.owner_up _ p o' ho) hleaf
      unfold ownerAt
      rw [hlevel]
      unfold ownerFrom
      rw [hnone]
      have hown : (owner.insert (leaf cell split q) o).lookup (leaf cell split p) = some o := by
        rw [heq, Finmap.lookup_insert]
      exact ownerAt_of_leaf_owned hown
    · have hlevel : leafLevel cell split' p = leafLevel cell split p := by
        refine leafLevel_unique hl ?_ fun l h => hmem _ (hbelow l h)
        show leaf cell split p ∉ split'
        rw [heq]
        exact hsplit
      apply ownerAt_of_leaf_owned
      show (owner.insert (leaf cell split q) o).lookup (cell (leafLevel cell split' p) p) = some o
      rw [hlevel]
      show (owner.insert (leaf cell split q) o).lookup (leaf cell split p) = some o
      rw [heq, Finmap.lookup_insert]
  · next hne =>
    have hlevel : leafLevel cell split' p = leafLevel cell split p := by
      refine leafLevel_unique hl ?_ fun l h => hmem _ (hbelow l h)
      rcases hs with rfl | ⟨rfl, -⟩
      · exact hleaf
      · rw [Finset.mem_insert, not_or]
        exact ⟨hne, hleaf⟩
    unfold ownerAt
    rw [hlevel]
    refine ownerFrom_insert_of_ne o fun l h => ?_
    intro heq
    rcases Nat.lt_or_ge l (leafLevel cell split p) with h1 | h1
    · -- a cell above the leaf of `p` is split, the leaf around `q` is not
      have h2 := hbelow l h1
      rw [heq] at h2
      exact (leaf_spec hl split q).1 h2
    · have h2 : l = leafLevel cell split p := by omega
      rw [h2] at heq
      exact hne heq

/-- A tree that grew from its leaves grows on so. -/
theorem Rooted.grow (hl : Levelled cell) (hr : Rooted cell owner split) (o : O)
    {split' : Finset K}
    (hs : split' = split ∨ split' = insert (leaf cell split q) split ∧
      Separates cell (leaf cell split q)) :
    Rooted cell (owner.insert (leaf cell split q) o) split' := by
  have hmem : ∀ k, k ∈ split → k ∈ split' := by
    intro k hk
    rcases hs with rfl | ⟨rfl, -⟩
    · exact hk
    · exact Finset.mem_insert_of_mem hk
  -- the cell above a cell that is the leaf around `q` is split
  have hup : ∀ l p, cell (l + 1) p = leaf cell split q → cell l p ∈ split := by
    intro l p h
    have h1 : leafLevel cell split q = l + 1 := (hl _ _ p q h).symm
    have h2 : cell l q ∈ split := (leaf_spec hl split q).2 l (by omega)
    unfold leaf at h
    rw [h1] at h
    rw [hr.separates _ h2 l q p rfl h.symm]
    exact h2
  refine ⟨fun k hk => ?_, fun l p h => ?_, fun l p o' h => ?_⟩
  · rcases hs with rfl | ⟨rfl, h⟩
    · exact hr.separates k hk
    · rcases Finset.mem_insert.1 hk with rfl | h1
      · exact h
      · exact hr.separates k h1
  · have h1 : cell (l + 1) p ∈ split ∨ cell (l + 1) p = leaf cell split q := by
      rcases hs with rfl | ⟨rfl, -⟩
      · exact Or.inl h
      · exact (Finset.mem_insert.1 h).symm
    exact hmem _ (h1.elim (hr.split_up l p) (hup l p))
  · rw [Finmap.lookup_insert_ite] at h
    split at h
    · next heq => exact hmem _ (hup l p heq)
    · exact hmem _ (hr.owner_up l p o' h)

end

end CellTree
