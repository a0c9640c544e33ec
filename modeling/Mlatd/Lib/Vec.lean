/-
  Vectors as lists read with a default: what an update of one element, or one more element at the
  end, changes about the reads.
-/
import Mathlib.Data.List.Basic
import Mathlib.Tactic.Common

namespace List

variable {α : Type*}

theorem getD_set_ite (l : List α) {i : ℕ} (hi : i < l.length) (a d : α) (j : ℕ) :
    (l.set i a).getD j d = if j = i then a else l.getD j d := by
  rw [getD_eq_getElem?_getD, getD_eq_getElem?_getD, getElem?_set]
  by_cases h : j = i
  · rw [if_pos h, if_pos h.symm, if_pos hi, Option.getD_some]
  · rw [if_neg h, if_neg (Ne.symm h)]

theorem getD_concat_ite (l : List α) (a d : α) (j : ℕ) :
    (l ++ [a]).getD j d = if j = l.length then a else l.getD j d := by
  rw [getD_eq_getElem?_getD, getD_eq_getElem?_getD]
  by_cases h : j = l.length
  · rw [if_pos h, h, getElem?_concat_length, Option.getD_some]
  · rw [if_neg h]
    rcases Nat.lt_or_gt_of_ne h with h1 | h1
    · rw [getElem?_append_left h1]
    · rw [getElem?_eq_none (by simp; omega), getElem?_eq_none (by omega)]

theorem getD_of_length_le (l : List α) {i : ℕ} (hi : l.length ≤ i) (d : α) : l.getD i d = d := by
  rw [getD_eq_getElem?_getD, getElem?_eq_none hi, Option.getD_none]

/-- A list is its reads. -/
theorem eq_map_getD (l : List α) (d : α) : l = (range l.length).map fun i => l.getD i d := by
  apply ext_getElem?
  intro i
  rw [getElem?_map]
  by_cases h : i < l.length
  · rw [getElem?_range h, Option.map_some, getD_eq_getElem?_getD, getElem?_eq_getElem h,
      Option.getD_some]
  · rw [getElem?_eq_none (by omega), getElem?_eq_none (by simp; omega), Option.map_none]

theorem getElem?_modify_ite (l : List α) (f : α → α) (i j : ℕ) :
    (l.modify i f)[j]? = if j = i then l[j]?.map f else l[j]? := by
  rw [getElem?_modify]
  by_cases h : j = i
  · rw [if_pos h, h]
    simp
  · rw [if_neg h]
    simp [Ne.symm h]

theorem modify_concat (l : List α) (a : α) (f : α → α) :
    (l ++ [a]).modify l.length f = l ++ [f a] := by
  induction l with
  | nil => rfl
  | cons b l ih => exact congrArg (cons b) ih

/-- A count after one element is rewritten. -/
theorem countP_modify (p : α → Bool) (l : List α) (f : α → α) {i : ℕ} {a : α}
    (h : l[i]? = some a) :
    (l.modify i f).countP p + (if p a then 1 else 0) = l.countP p + if p (f a) then 1 else 0 := by
  induction l generalizing i with
  | nil => cases h
  | cons b l ih =>
    cases i with
    | zero =>
      cases h
      simp only [modify_zero_cons, countP_cons]
      omega
    | succ i =>
      simp only [modify_succ_cons, countP_cons]
      have h1 := ih h
      omega

/-! ### A modification for each of some keys -/

theorem getElem?_foldl_modify_of_notMem {β : Type*} (g : ℕ × β → α → α) (os : List (ℕ × β))
    (l : List α) {i : ℕ} (hi : i ∉ os.map Prod.fst) :
    (os.foldl (fun l o => l.modify o.1 (g o)) l)[i]? = l[i]? := by
  induction os generalizing l with
  | nil => rfl
  | cons o os ih =>
    rw [map_cons, mem_cons, not_or] at hi
    rw [foldl_cons, ih _ hi.2, getElem?_modify_ite, if_neg hi.1]

/-- Keys that come once are modified once, each by its own. -/
theorem getElem?_foldl_modify_of_mem {β : Type*} (g : ℕ × β → α → α) {os : List (ℕ × β)}
    (honce : (os.map Prod.fst).Nodup) (l : List α) {o : ℕ × β} (ho : o ∈ os) :
    (os.foldl (fun l o => l.modify o.1 (g o)) l)[o.1]? = l[o.1]?.map (g o) := by
  induction os generalizing l with
  | nil => cases ho
  | cons p os ih =>
    rw [map_cons, nodup_cons] at honce
    rw [foldl_cons]
    rcases mem_cons.1 ho with rfl | ho
    · rw [getElem?_foldl_modify_of_notMem g os _ honce.1, getElem?_modify_ite, if_pos rfl]
    · have hne : o.1 ≠ p.1 := fun h => honce.1 (h ▸ mem_map_of_mem (f := Prod.fst) ho)
      rw [ih honce.2 _ ho, getElem?_modify_ite, if_neg hne]

/-! ## The last elements -/

/-- The last `n` elements. -/
def lastN (l : List α) (n : ℕ) : List α := l.drop (l.length - n)

theorem lastN_of_le {l : List α} {n : ℕ} (h : l.length ≤ n) : l.lastN n = l := by
  unfold lastN
  rw [Nat.sub_eq_zero_of_le h, drop_zero]

theorem lastN_cons_of_lt {a : α} {l : List α} {n : ℕ} (h : n < (a :: l).length) :
    (a :: l).lastN n = l.lastN n := by
  have h1 : (a :: l).length - n = l.length - n + 1 := by
    rw [length_cons] at h ⊢
    omega
  unfold lastN
  rw [h1, drop_succ_cons]

theorem lastN_sublist (l : List α) (n : ℕ) : l.lastN n <+ l := drop_sublist _ l

theorem length_lastN_le (l : List α) (n : ℕ) : (l.lastN n).length ≤ n := by
  unfold lastN
  rw [length_drop]
  omega

/-- One more element pushes the oldest of the last out. -/
theorem lastN_concat (l : List α) (a : α) (n : ℕ) :
    (l ++ [a]).lastN n = (l.lastN n ++ [a]).lastN n := by
  induction l with
  | nil => simp [lastN]
  | cons b l ih =>
    by_cases h : n < (b :: l).length
    · rw [lastN_cons_of_lt h, ← ih, cons_append, lastN_cons_of_lt]
      rw [length_cons, length_append]
      rw [length_cons] at h
      omega
    · rw [lastN_of_le (by omega : (b :: l).length ≤ n)]

theorem map_lastN {β : Type*} (f : α → β) (l : List α) (n : ℕ) :
    (l.lastN n).map f = (l.map f).lastN n := by
  unfold lastN
  rw [map_drop, length_map]

/-- The last `n` elements are those from index `length - n` on. -/
theorem mem_lastN_iff {l : List α} {n : ℕ} {a : α} :
    a ∈ l.lastN n ↔ ∃ i, l.length ≤ i + n ∧ l[i]? = some a := by
  unfold lastN
  rw [mem_iff_getElem?]
  constructor
  · rintro ⟨i, hi⟩
    rw [getElem?_drop] at hi
    exact ⟨_, by omega, hi⟩
  · rintro ⟨i, hle, hi⟩
    refine ⟨i - (l.length - n), ?_⟩
    rw [getElem?_drop, ← hi]
    congr 1
    omega

/-- A duplicate-free list given up its last element no longer has it. -/
theorem mem_dropLast_iff {l : List α} (hl : l.Nodup) {a : α} (ha : l.getLast? = some a) (x : α) :
    x ∈ l.dropLast ↔ x ∈ l ∧ x ≠ a := by
  have h : l = l.dropLast ++ [a] := (dropLast_append_getLast? a ha).symm
  rw [h, nodup_append] at hl
  constructor
  · intro hx
    exact ⟨(dropLast_sublist l).subset hx, hl.2.2 x hx a (mem_singleton.2 rfl)⟩
  · rintro ⟨hx, hne⟩
    rw [h] at hx
    rcases mem_append.1 hx with h1 | h1
    · exact h1
    · exact absurd (mem_singleton.1 h1) hne

end List
