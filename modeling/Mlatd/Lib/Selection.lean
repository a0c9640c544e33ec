/-
  Two selections from a list, both in its order: the first element of each key, and the places of
  its `k` least elements.
-/
import Mathlib.Data.List.GetD
import Mathlib.Data.List.Sort

namespace List

variable {α κ : Type*}

/-! ## The first of each key -/

/-- The first element of each key that is not in `seen`. -/
def firstsBy [DecidableEq κ] (key : α → κ) : List κ → List α → List α
  | _, [] => []
  | seen, a :: as =>
    if seen.contains (key a) then firstsBy key seen as else a :: firstsBy key (key a :: seen) as

section
variable [DecidableEq κ] {key : α → κ}

theorem firstsBy_sublist (seen : List κ) (l : List α) : firstsBy key seen l <+ l := by
  induction l generalizing seen with
  | nil => exact Sublist.refl _
  | cons a as ih =>
    unfold firstsBy
    split
    · exact (ih seen).cons a
    · exact (ih _).cons_cons a

theorem key_notMem_of_mem_firstsBy {seen : List κ} {l : List α} {a : α}
    (h : a ∈ firstsBy key seen l) : key a ∉ seen := by
  induction l generalizing seen with
  | nil => cases h
  | cons b as ih =>
    unfold firstsBy at h
    split at h
    · exact ih h
    · next hb =>
      rcases mem_cons.1 h with rfl | h
      · rwa [contains_iff_mem] at hb
      · exact fun hmem => ih h (mem_cons_of_mem _ hmem)

/-- No key comes twice. -/
theorem nodup_map_firstsBy (seen : List κ) (l : List α) :
    ((firstsBy key seen l).map key).Nodup := by
  induction l generalizing seen with
  | nil => exact nodup_nil
  | cons a as ih =>
    unfold firstsBy
    split
    · exact ih seen
    · rw [map_cons, nodup_cons]
      refine ⟨fun h => ?_, ih _⟩
      obtain ⟨b, hb, heq⟩ := mem_map.1 h
      exact key_notMem_of_mem_firstsBy hb (heq ▸ mem_cons_self)

/-- Every new key has its first element. -/
theorem exists_mem_firstsBy {seen : List κ} {l : List α} {b : α} (hb : b ∈ l)
    (hnew : key b ∉ seen) : ∃ a ∈ firstsBy key seen l, key a = key b := by
  induction l generalizing seen with
  | nil => cases hb
  | cons c as ih =>
    unfold firstsBy
    split
    · next hc =>
      rcases mem_cons.1 hb with rfl | hb
      · exact absurd (contains_iff_mem.1 hc) hnew
      · exact ih hb hnew
    · by_cases hkey : key c = key b
      · exact ⟨c, mem_cons_self, hkey⟩
      · rcases mem_cons.1 hb with rfl | hb
        · exact absurd rfl hkey
        · have hnew' : key b ∉ key c :: seen := fun hmem =>
            (mem_cons.1 hmem).elim (fun h => hkey h.symm) hnew
          obtain ⟨a, ha, heq⟩ := ih hb hnew'
          exact ⟨a, mem_cons_of_mem _ ha, heq⟩

/-- In a list ordered by `R` the first element of a key is `R`-before the others of that key. -/
theorem rel_of_mem_firstsBy {R : α → α → Prop} {seen : List κ} {l : List α} (hl : l.Pairwise R)
    {a b : α} (ha : a ∈ firstsBy key seen l) (hb : b ∈ l) (hkey : key b = key a) :
    b = a ∨ R a b := by
  induction l generalizing seen with
  | nil => cases hb
  | cons c as ih =>
    rw [pairwise_cons] at hl
    unfold firstsBy at ha
    split at ha
    · next hc =>
      rcases mem_cons.1 hb with rfl | hb
      · rw [contains_iff_mem, hkey] at hc
        exact absurd hc (key_notMem_of_mem_firstsBy ha)
      · exact ih hl.2 ha hb
    · rcases mem_cons.1 ha with rfl | ha
      · rcases mem_cons.1 hb with rfl | hb
        · exact Or.inl rfl
        · exact Or.inr (hl.1 b hb)
      · rcases mem_cons.1 hb with rfl | hb
        · exact absurd (hkey ▸ mem_cons_self) (key_notMem_of_mem_firstsBy ha)
        · exact ih hl.2 ha hb

end

/-! ## The places of the least -/

/-- The places of the `k` least of `n` elements under `le`, ties to the first, in increasing
    order. -/
def leastPlaces (le : ℕ → ℕ → Prop) [DecidableRel le] (n k : ℕ) : List ℕ :=
  (((range n).insertionSort le).take k).insertionSort (· ≤ ·)

section
variable {le : ℕ → ℕ → Prop} [DecidableRel le]

theorem mem_leastPlaces {n k i : ℕ} :
    i ∈ leastPlaces le n k ↔ i ∈ ((range n).insertionSort le).take k := mem_insertionSort _

theorem length_leastPlaces (n k : ℕ) : (leastPlaces le n k).length = min k n := by
  simp [leastPlaces]

theorem lt_of_mem_leastPlaces {n k i : ℕ} (h : i ∈ leastPlaces le n k) : i < n := by
  have hmem := mem_of_mem_take (mem_leastPlaces.1 h)
  exact mem_range.1 ((mem_insertionSort le).1 hmem)

theorem pairwise_leastPlaces (n k : ℕ) : (leastPlaces le n k).Pairwise (· < ·) := by
  have hnodup : (leastPlaces le n k).Nodup := by
    apply (perm_insertionSort _ _).nodup_iff.2
    exact ((perm_insertionSort le _).nodup_iff.2 nodup_range).sublist (take_sublist _ _)
  have hsorted : (leastPlaces le n k).Pairwise (· ≤ ·) := pairwise_insertionSort _ _
  exact (hsorted.and hnodup).imp fun h => lt_of_le_of_ne h.1 h.2

/-- Reading a list at increasing places leaves out elements and no more. -/
theorem map_getD_sublist (l : List α) (d : α) {is : List ℕ} (hlt : ∀ i ∈ is, i < l.length)
    (his : is.Pairwise (· < ·)) : (is.map fun i => l.getD i d) <+ l := by
  have hread : (is.map fun i => l.getD i d) = (is.pmap Fin.mk hlt).map fun i => l[i] := by
    rw [map_pmap, ← pmap_eq_map (p := fun i => i < l.length) (f := fun i => l.getD i d) hlt]
    apply pmap_congr_left
    intro i _ hi _
    exact getD_eq_getElem l d hi
  rw [hread]
  apply map_getElem_sublist
  rw [pairwise_pmap]
  exact his.imp fun h _ _ => h

/-- No place left out is less than one taken. -/
theorem le_of_mem_leastPlaces [Std.Total le] [IsTrans ℕ le] {n k i j : ℕ}
    (hi : i ∈ leastPlaces le n k) (hjn : j < n) (hj : j ∉ leastPlaces le n k) : le i j := by
  have hsorted := pairwise_insertionSort le (range n)
  have hmem : j ∈ (range n).insertionSort le := (mem_insertionSort le).2 (mem_range.2 hjn)
  rw [← take_append_drop k ((range n).insertionSort le)] at hsorted hmem
  rcases mem_append.1 hmem with htake | hdrop
  · exact absurd (mem_leastPlaces.2 htake) hj
  · exact (pairwise_append.1 hsorted).2.2 i (mem_leastPlaces.1 hi) j hdrop

end

end List
