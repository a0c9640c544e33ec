/-
  Finite maps whose keys spell a content, for any reading `read` of the keys.

  `OneSpelling read m`: no two keys of `m` spell the same content. `Spelt read m m'`: both maps are
  so, and the contents they hold, with the values at them, are the same. Such maps stay such under
  insertion at keys that spell one content, when neither map holds it under another key (`Alone`),
  and under the operations that do not look at keys.
-/
import Mlatd.Lib.Finmap

namespace Finmap

variable {K V W B : Type} (read : K → B)

/-- No two keys spell the same content. -/
def OneSpelling (m : HashMap K V) : Prop := ∀ j ∈ m, ∀ k ∈ m, read j = read k → j = k

/-- No other key spells the content of `k`. -/
def Alone (m : HashMap K V) (k : K) : Prop := ∀ j ∈ m, read j = read k → j = k

variable {read} in
theorem OneSpelling.alone {m : HashMap K V} (h : OneSpelling read m) {k : K} (hk : k ∈ m) :
    Alone read m k :=
  fun j hj hjk => h j hj k hk hjk

variable {read} in
theorem Alone.mono {m : HashMap K V} {m' : HashMap K W} {k : K} (h : Alone read m k)
    (hm : ∀ j ∈ m', j ∈ m) : Alone read m' k :=
  fun j hj => h j (hm j hj)

variable {read} in
theorem OneSpelling.mono {m : HashMap K V} {m' : HashMap K W} (h : OneSpelling read m)
    (hm : ∀ k ∈ m', k ∈ m) : OneSpelling read m' :=
  fun j hj k hk => h j (hm j hj) k (hm k hk)

instance [DecidableEq K] [DecidableEq B] (m : HashMap K V) (k : K) : Decidable (Alone read m k) :=
  decidable_of_iff (∀ j ∈ m.keys, read j = read k → j = k)
    (forall_congr' fun _ => imp_congr_left Finmap.mem_keys)

variable {read} in
/-- A key of a larger map without two spellings is alone. -/
theorem OneSpelling.alone_of_mem {m : HashMap K V} {m' : HashMap K W} (h : OneSpelling read m')
    {k : K} (hk : k ∈ m') (hm : ∀ j ∈ m, j ∈ m') : Alone read m k :=
  (h.alone hk).mono hm

/-- Two listings in the order of a rank, of the same ranks. -/
theorem forall₂_of_ranked {rank rank' : K → ℕ} {l l' : List K}
    (hl : (l.map rank).Pairwise (· ≤ ·)) (hl' : (l'.map rank').Pairwise (· ≤ ·))
    (hn : (l.map rank).Nodup) (hn' : (l'.map rank').Nodup)
    (h : ∀ n, n ∈ l.map rank ↔ n ∈ l'.map rank') :
    List.Forall₂ (fun k k' => rank' k' = rank k) l l' := by
  have hp : (l.map rank).Perm (l'.map rank') := (List.perm_ext_iff_of_nodup hn hn').2 h
  have heq := List.Perm.eq_of_pairwise (fun _ _ _ _ => Nat.le_antisymm) hl hl' hp
  have hall : List.Forall₂ Eq (l.map rank) (l'.map rank') := by
    rw [heq]
    exact List.forall₂_same.2 fun _ _ => rfl
  rw [List.forall₂_map_left_iff, List.forall₂_map_right_iff] at hall
  exact hall.imp fun _ _ => Eq.symm

variable [DecidableEq K]

/-- The same contents, each under one key, with the same values. -/
structure Spelt (m m' : HashMap K V) : Prop where
  left : OneSpelling read m
  right : OneSpelling read m'
  forth : ∀ k v, m.lookup k = some v → ∃ k', read k' = read k ∧ m'.lookup k' = some v
  back : ∀ k' v, m'.lookup k' = some v → ∃ k, read k = read k' ∧ m.lookup k = some v

variable {read}

/-- An insertion keeps the spelling exactly when the key is alone. -/
theorem OneSpelling.insert_iff {m : HashMap K V} (h : OneSpelling read m) (k : K) (v : V) :
    OneSpelling read (m.insert k v) ↔ Alone read m k := by
  constructor
  · intro h' j hj hjk
    exact h' j (mem_insert.2 (Or.inr hj)) k (mem_insert.2 (Or.inl rfl)) hjk
  · intro hk i hi j hj hij
    rcases mem_insert.1 hi with hi' | hi'
    · rcases mem_insert.1 hj with hj' | hj'
      · exact hi'.trans hj'.symm
      · exact hi'.trans (hk j hj' (hij.symm.trans (congrArg read hi'))).symm
    · rcases mem_insert.1 hj with hj' | hj'
      · exact (hk i hi' (hij.trans (congrArg read hj'))).trans hj'.symm
      · exact h i hi' j hj' hij

namespace Spelt

variable {m m' : HashMap K V}

theorem refl (h : OneSpelling read m) : Spelt read m m :=
  ⟨h, h, fun k _ hk => ⟨k, rfl, hk⟩, fun k _ hk => ⟨k, rfl, hk⟩⟩

theorem symm (h : Spelt read m m') : Spelt read m' m := ⟨h.right, h.left, h.back, h.forth⟩

/-- Keys that spell one content hold the same value, when they are alone. -/
theorem lookup_eq (h : Spelt read m m') {k k' : K} (hkk : read k' = read k)
    (hk : Alone read m k) (hk' : Alone read m' k') : m'.lookup k' = m.lookup k := by
  cases hl : m.lookup k with
  | some v =>
    obtain ⟨j, hj, hv⟩ := h.forth k v hl
    rw [← hk' j (mem_iff.2 ⟨v, hv⟩) (hj.trans hkk.symm)]
    exact hv
  | none =>
    cases hl' : m'.lookup k' with
    | none => rfl
    | some v =>
      obtain ⟨j, hj, hv⟩ := h.back k' v hl'
      rw [hk j (mem_iff.2 ⟨v, hv⟩) (hj.trans hkk), hl] at hv
      cases hv

/-- Keys of the two maps that spell one content hold the same value. -/
theorem lookup_eq_of_mem (h : Spelt read m m') {k k' : K} (hkk : read k' = read k) (hk : k ∈ m)
    (hk' : k' ∈ m') : m'.lookup k' = m.lookup k :=
  h.lookup_eq hkk (h.left.alone hk) (h.right.alone hk')

private theorem forth_insert (h : Spelt read m m') {k k' : K} (hkk : read k' = read k)
    (hk : Alone read m k) (v : V) (j : K) (w : V)
    (hj : (m.insert k v).lookup j = some w) :
    ∃ j', read j' = read j ∧ (m'.insert k' v).lookup j' = some w := by
  rw [lookup_insert_ite] at hj
  by_cases hjk : j = k
  · rw [if_pos hjk] at hj
    refine ⟨k', hkk.trans (congrArg read hjk.symm), ?_⟩
    rw [lookup_insert]
    exact hj
  · rw [if_neg hjk] at hj
    obtain ⟨j', hj', hw⟩ := h.forth j w hj
    refine ⟨j', hj', ?_⟩
    have hne : j' ≠ k' := by
      intro heq
      exact hjk (hk j (mem_iff.2 ⟨w, hj⟩) (hj'.symm.trans ((congrArg read heq).trans hkk)))
    rw [lookup_insert_of_ne _ hne]
    exact hw

theorem insert (h : Spelt read m m') {k k' : K} (hkk : read k' = read k)
    (hk : Alone read m k) (hk' : Alone read m' k') (v : V) :
    Spelt read (m.insert k v) (m'.insert k' v) where
  left := (h.left.insert_iff k v).2 hk
  right := (h.right.insert_iff k' v).2 hk'
  forth := h.forth_insert hkk hk v
  back := h.symm.forth_insert hkk.symm hk' v

theorem upsert (h : Spelt read m m') {k k' : K} (hkk : read k' = read k)
    (hk : Alone read m k) (hk' : Alone read m' k') (d : V) (f : V → V) :
    Spelt read (m.upsert k d f) (m'.upsert k' d f) := by
  unfold Finmap.upsert
  rw [h.lookup_eq hkk hk hk']
  exact h.insert hkk hk hk' _

private theorem forth_erase (h : Spelt read m m') {k k' : K} (hkk : read k' = read k)
    (hk : k ∈ m) (j : K) (w : V) (hj : (m.erase k).lookup j = some w) :
    ∃ j', read j' = read j ∧ (m'.erase k').lookup j' = some w := by
  rw [lookup_erase_ite] at hj
  by_cases hjk : j = k
  · rw [if_pos hjk] at hj
    cases hj
  · rw [if_neg hjk] at hj
    obtain ⟨j', hj', hw⟩ := h.forth j w hj
    refine ⟨j', hj', ?_⟩
    have hne : j' ≠ k' := by
      intro heq
      exact hjk (h.left j (mem_iff.2 ⟨w, hj⟩) k hk
        (hj'.symm.trans ((congrArg read heq).trans hkk)))
    rw [lookup_erase_ne hne]
    exact hw

theorem erase (h : Spelt read m m') {k k' : K} (hkk : read k' = read k) (hk : k ∈ m)
    (hk' : k' ∈ m') : Spelt read (m.erase k) (m'.erase k') where
  left := h.left.mono fun _ hj => (mem_erase.1 hj).2
  right := h.right.mono fun _ hj => (mem_erase.1 hj).2
  forth := h.forth_erase hkk hk
  back := h.symm.forth_erase hkk.symm hk'

private theorem forth_mapVals (h : Spelt read m m') (f : V → W) (j : K) (w : W)
    (hj : (m.mapVals fun _ => f).lookup j = some w) :
    ∃ j', read j' = read j ∧ (m'.mapVals fun _ => f).lookup j' = some w := by
  rw [lookup_mapVals] at hj
  obtain ⟨v, hv, hw⟩ := Option.map_eq_some_iff.1 hj
  obtain ⟨j', hj', hv'⟩ := h.forth j v hv
  refine ⟨j', hj', ?_⟩
  rw [lookup_mapVals, hv', Option.map_some, hw]

theorem mapVals (h : Spelt read m m') (f : V → W) :
    Spelt read (m.mapVals fun _ => f) (m'.mapVals fun _ => f) where
  left := h.left.mono fun _ hj => mem_mapVals.1 hj
  right := h.right.mono fun _ hj => mem_mapVals.1 hj
  forth := h.forth_mapVals f
  back := h.symm.forth_mapVals f

private theorem forth_retain (h : Spelt read m m') (p : V → Bool) (j : K) (w : V)
    (hj : (m.retain fun _ => p).lookup j = some w) :
    ∃ j', read j' = read j ∧ (m'.retain fun _ => p).lookup j' = some w := by
  rw [lookup_retain] at hj
  obtain ⟨hv, hp⟩ := Option.filter_eq_some_iff.1 hj
  obtain ⟨j', hj', hv'⟩ := h.forth j w hv
  refine ⟨j', hj', ?_⟩
  rw [lookup_retain, hv', Option.filter_some, if_pos hp]

theorem retain (h : Spelt read m m') (p : V → Bool) :
    Spelt read (m.retain fun _ => p) (m'.retain fun _ => p) where
  left := h.left.mono fun _ hj => by
    obtain ⟨v, hv, -⟩ := mem_retain.1 hj
    exact mem_iff.2 ⟨v, hv⟩
  right := h.right.mono fun _ hj => by
    obtain ⟨v, hv, -⟩ := mem_retain.1 hj
    exact mem_iff.2 ⟨v, hv⟩
  forth := h.forth_retain p
  back := h.symm.forth_retain p

end Spelt

end Finmap
