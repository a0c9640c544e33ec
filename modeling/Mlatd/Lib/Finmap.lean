/-
  Finite maps with one value type: the operations of a hash map that `Finmap` lacks.

  `retain` keeps the entries a predicate accepts, `mapVals` rewrites every value in place,
  `upsert` is the entry-or-default update, `modify` the update of a present key. Each comes with
  its lookup lemma, so that a proof about a map is a proof about lookups; `ext_lookup`
  (Mathlib) turns it back into an equality. Every lemma holds for every map and key.
-/
import Mathlib.Data.Finmap

/-- A finite map from `K` to `V`, without an order of its entries. -/
abbrev HashMap (K V : Type) := Finmap fun _ : K => V

namespace Finmap

variable {K V W : Type}

/-! ## retain, mapVals -/

/-- The entries that `p` accepts. -/
def retain (p : K → V → Bool) (m : HashMap K V) : HashMap K V where
  entries := m.entries.filter fun e => p e.1 e.2
  nodupKeys := by
    rw [← Multiset.nodup_keys]
    exact Multiset.nodup_of_le (Multiset.map_le_map (Multiset.filter_le _ _))
      (Multiset.nodup_keys.2 m.nodupKeys)

/-- Every value rewritten by `f`, keys unchanged. -/
def mapVals (f : K → V → W) (m : HashMap K V) : HashMap K W where
  entries := m.entries.map fun e => ⟨e.1, f e.1 e.2⟩
  nodupKeys := by
    rw [← Multiset.nodup_keys]
    have h : Multiset.keys (m.entries.map fun e => (⟨e.1, f e.1 e.2⟩ : Σ _ : K, W)) =
        m.entries.keys := by
      simp [Multiset.keys]
    rw [h]
    exact Multiset.nodup_keys.2 m.nodupKeys

variable [DecidableEq K]

/-- `entry(k).or_insert(d)` followed by an update of the entry. -/
def upsert (k : K) (d : V) (f : V → V) (m : HashMap K V) : HashMap K V :=
  m.insert k (f ((m.lookup k).getD d))

/-- `get_mut(k)` followed by an update of the entry, if there is one. -/
def modify (k : K) (f : V → V) (m : HashMap K V) : HashMap K V :=
  match m.lookup k with
  | some v => m.insert k (f v)
  | none => m

theorem lookup_insert_ite (k k' : K) (v : V) (m : HashMap K V) :
    (m.insert k v).lookup k' = if k' = k then some v else m.lookup k' := by
  by_cases h : k' = k
  · rw [if_pos h, h, lookup_insert]
  · rw [if_neg h, lookup_insert_of_ne m h]

/-- Entries that correspond under a renaming of keys still do after an entry more at a renamed
    key. -/
theorem lookup_insert_map {f : K → K} {a k : K} {m m' : HashMap K V} (hinj : f k = f a → k = a)
    (h : m'.lookup (f k) = m.lookup k) (v : V) :
    (m'.insert (f a) v).lookup (f k) = (m.insert a v).lookup k := by
  rw [lookup_insert_ite, lookup_insert_ite, h]
  by_cases hk : k = a
  · rw [if_pos hk, if_pos (congrArg f hk)]
  · rw [if_neg hk, if_neg fun heq => hk (hinj heq)]

theorem exists_lookup_insert (k k' : K) (v : V) (m : HashMap K V) :
    (∃ w, (m.insert k v).lookup k' = some w) ↔ k' = k ∨ ∃ w, m.lookup k' = some w := by
  rw [lookup_insert_ite]
  by_cases h : k' = k
  · simp [h]
  · simp [h]

theorem lookup_erase_ite (k k' : K) (m : HashMap K V) :
    (m.erase k).lookup k' = if k' = k then none else m.lookup k' := by
  by_cases h : k' = k
  · rw [if_pos h, h, lookup_erase]
  · rw [if_neg h, lookup_erase_ne h]

theorem lookup_retain (p : K → V → Bool) (m : HashMap K V) (k : K) :
    (m.retain p).lookup k = (m.lookup k).filter (p k) := by
  apply Option.ext
  intro v
  rw [← Option.mem_def, mem_lookup_iff, Option.filter_eq_some_iff, ← Option.mem_def,
    mem_lookup_iff]
  simp [retain]

theorem lookup_mapVals (f : K → V → W) (m : HashMap K V) (k : K) :
    (m.mapVals f).lookup k = (m.lookup k).map (f k) := by
  apply Option.ext
  intro w
  rw [← Option.mem_def, mem_lookup_iff, Option.map_eq_some_iff]
  simp only [mapVals, Multiset.mem_map, Sigma.mk.injEq, heq_eq_eq]
  constructor
  · rintro ⟨⟨k', v⟩, hm, rfl, rfl⟩
    exact ⟨v, mem_lookup_iff.2 hm, rfl⟩
  · rintro ⟨v, hv, rfl⟩
    exact ⟨⟨k, v⟩, mem_lookup_iff.1 hv, rfl, rfl⟩

theorem lookup_upsert (k k' : K) (d : V) (f : V → V) (m : HashMap K V) :
    (m.upsert k d f).lookup k' =
      if k' = k then some (f ((m.lookup k).getD d)) else m.lookup k' :=
  lookup_insert_ite k k' _ m

theorem lookup_modify (k k' : K) (f : V → V) (m : HashMap K V) :
    (m.modify k f).lookup k' = if k' = k then (m.lookup k).map f else m.lookup k' := by
  unfold modify
  cases h : m.lookup k with
  | none =>
    by_cases hk : k' = k
    · rw [if_pos hk, hk, h]; rfl
    · rw [if_neg hk]
  | some v => rw [lookup_insert_ite, Option.map_some]

/-- A map without an entry at `k` is not changed by erasing `k`. -/
theorem erase_of_lookup_none {k : K} {m : HashMap K V} (h : m.lookup k = none) :
    m.erase k = m := by
  apply ext_lookup
  intro x
  rw [lookup_erase_ite]
  split
  · next hx => rw [hx, h]
  · rfl

/-! ## Keys -/

theorem mem_upsert {k k' : K} {d : V} {f : V → V} {m : HashMap K V} :
    k' ∈ m.upsert k d f ↔ k' = k ∨ k' ∈ m :=
  mem_insert

theorem mem_iff_isSome {k : K} {m : HashMap K V} : k ∈ m ↔ (m.lookup k).isSome = true :=
  lookup_isSome.symm

theorem mem_modify {k k' : K} {f : V → V} {m : HashMap K V} : k' ∈ m.modify k f ↔ k' ∈ m := by
  rw [mem_iff_isSome, mem_iff_isSome, lookup_modify]
  split
  · next h => rw [h, Option.isSome_map]
  · rfl

theorem mem_mapVals {k : K} {f : K → V → W} {m : HashMap K V} : k ∈ m.mapVals f ↔ k ∈ m := by
  rw [mem_iff_isSome, mem_iff_isSome, lookup_mapVals, Option.isSome_map]

theorem mem_retain {p : K → V → Bool} {m : HashMap K V} {k : K} :
    k ∈ m.retain p ↔ ∃ v, m.lookup k = some v ∧ p k v = true := by
  rw [mem_iff, lookup_retain]
  simp only [Option.filter_eq_some_iff]

/-! ## Maps collected from a list -/

/-- Entries inserted under distinct keys are all there. -/
theorem lookup_foldl_insert {α : Type} (f : α → K) (g : α → V) {l : List α}
    (h : ∀ a ∈ l, ∀ b ∈ l, f a = f b → a = b) (m : HashMap K V) (k : K) (v : V) :
    (l.foldl (fun m a => m.insert (f a) (g a)) m).lookup k = some v ↔
      (∃ a ∈ l, f a = k ∧ g a = v) ∨ (∀ a ∈ l, f a ≠ k) ∧ m.lookup k = some v := by
  induction l generalizing m with
  | nil => simp
  | cons a l ih =>
    have hl : ∀ b ∈ l, ∀ c ∈ l, f b = f c → b = c := fun b hb c hc =>
      h b (List.mem_cons_of_mem a hb) c (List.mem_cons_of_mem a hc)
    rw [List.foldl_cons, ih hl, lookup_insert_ite]
    by_cases hk : k = f a
    · rw [if_pos hk]
      constructor
      · rintro (⟨b, hb, h1, h2⟩ | ⟨-, h2⟩)
        · exact Or.inl ⟨b, List.mem_cons_of_mem a hb, h1, h2⟩
        · exact Or.inl ⟨a, List.mem_cons_self, hk.symm, Option.some.inj h2⟩
      · rintro (⟨b, hb, h1, h2⟩ | ⟨h1, -⟩)
        · have hba : b = a := h b hb a List.mem_cons_self (h1.trans hk)
          by_cases hal : ∃ c ∈ l, f c = k
          · obtain ⟨c, hc, h3⟩ := hal
            have hca : c = a := h c (List.mem_cons_of_mem a hc) a List.mem_cons_self (h3.trans hk)
            rw [hba] at h2
            exact Or.inl ⟨c, hc, h3, by rw [hca, h2]⟩
          · exact Or.inr ⟨fun c hc h3 => hal ⟨c, hc, h3⟩, by rw [← h2, hba]⟩
        · exact absurd hk.symm (h1 a List.mem_cons_self)
    · rw [if_neg hk]
      constructor
      · rintro (⟨b, hb, h1⟩ | ⟨h1, h2⟩)
        · exact Or.inl ⟨b, List.mem_cons_of_mem a hb, h1⟩
        · refine Or.inr ⟨fun b hb => ?_, h2⟩
          rcases List.mem_cons.1 hb with rfl | hb
          · exact Ne.symm hk
          · exact h1 b hb
      · rintro (⟨b, hb, h1, h2⟩ | ⟨h1, h2⟩)
        · rcases List.mem_cons.1 hb with rfl | hb
          · exact absurd h1.symm hk
          · exact Or.inl ⟨b, hb, h1, h2⟩
        · exact Or.inr ⟨fun b hb => h1 b (List.mem_cons_of_mem a hb), h2⟩

theorem lookup_union_eq (m m' : HashMap K V) (k : K) :
    (m ∪ m').lookup k = (m.lookup k).or (m'.lookup k) := by
  by_cases h : k ∈ m
  · rw [lookup_union_left h]
    obtain ⟨v, hv⟩ := mem_iff.1 h
    rw [hv, Option.some_or]
  · rw [lookup_union_right h, lookup_eq_none.2 h, Option.none_or]

/-- Maps with no common key, merged one over the other, keep all their entries. -/
theorem lookup_foldl_union {α : Type} (f : α → HashMap K V) {l : List α} {k : K}
    (h : l.Pairwise fun a b => ∀ v w, (f a).lookup k = some v → (f b).lookup k ≠ some w)
    (m : HashMap K V) (v : V) :
    (l.foldl (fun m a => f a ∪ m) m).lookup k = some v ↔
      (∃ a ∈ l, (f a).lookup k = some v) ∨
        (∀ a ∈ l, (f a).lookup k = none) ∧ m.lookup k = some v := by
  induction l generalizing m with
  | nil => simp
  | cons a l ih =>
    obtain ⟨ha, hl⟩ := List.pairwise_cons.1 h
    rw [List.foldl_cons, ih hl, lookup_union_eq]
    cases hk : (f a).lookup k with
    | none =>
      rw [Option.none_or]
      simp [hk]
    | some w =>
      have hnone : ∀ b ∈ l, (f b).lookup k = none := fun b hb =>
        Option.eq_none_iff_forall_ne_some.2 fun v => ha b hb w v hk
      rw [Option.some_or]
      constructor
      · rintro (⟨b, hb, h1⟩ | ⟨-, h1⟩)
        · exact Or.inl ⟨b, List.mem_cons_of_mem a hb, h1⟩
        · exact Or.inl ⟨a, List.mem_cons_self, hk.trans h1⟩
      · rintro (⟨b, hb, h1⟩ | ⟨h1, -⟩)
        · rcases List.mem_cons.1 hb with rfl | hb
          · exact Or.inr ⟨hnone, hk.symm.trans h1⟩
          · exact Or.inl ⟨b, hb, h1⟩
        · have h2 := h1 a List.mem_cons_self
          rw [hk] at h2
          cases h2

/-- The number of entries. -/
def len (m : HashMap K V) : ℕ := m.keys.card

theorem mem_keys_iff_lookup {m : HashMap K V} {k : K} :
    k ∈ m.keys ↔ ∃ v, m.lookup k = some v := by
  rw [mem_keys, mem_iff]

omit [DecidableEq K] in
/-- A map has room for the keys that are in it. -/
theorem card_le_len {m : HashMap K V} {ks : Finset K} (h : ∀ k ∈ ks, k ∈ m) : ks.card ≤ m.len :=
  Finset.card_le_card fun k hk => mem_keys.2 (h k hk)

omit [DecidableEq K] in
theorem len_mono {m : HashMap K V} {m' : HashMap K W} (h : ∀ k ∈ m', k ∈ m) : m'.len ≤ m.len :=
  card_le_len fun k hk => h k (mem_keys.1 hk)

theorem len_insert_le (k : K) (v : V) (m : HashMap K V) : (m.insert k v).len ≤ m.len + 1 := by
  refine (Finset.card_le_card fun j hj => ?_).trans (Finset.card_insert_le k m.keys)
  rcases mem_insert.1 (mem_keys.1 hj) with h | h
  · exact Finset.mem_insert.2 (Or.inl h)
  · exact Finset.mem_insert.2 (Or.inr (mem_keys.2 h))

theorem len_insert_of_mem {k : K} (v : V) {m : HashMap K V} (hk : k ∈ m) :
    (m.insert k v).len ≤ m.len :=
  len_mono fun _ hj => (mem_insert.1 hj).elim (fun h => h ▸ hk) id

end Finmap
