/-
  A sorted list cut into windows, each anchored at its first element.

  `cut` loses and repeats nothing (`flatten_cut`) and no window is wider than `w` (`span_cut`). Of
  elements that come in blocks no wider than `w`, the next starting more than `w` after the
  previous one starts, the windows are the blocks (`cut_blocks`).
-/
import Mathlib.Algebra.Order.Group.Defs
import Mathlib.Algebra.Order.Group.Unbundled.Abs
import Mathlib.Data.List.Chain
import Mathlib.Data.List.TakeWhile
import Mathlib.Tactic.Abel
import Mathlib.Tactic.Linarith

namespace Windows

variable {α K : Type*} [AddCommGroup K] [LinearOrder K] [IsOrderedAddMonoid K]
variable (key : α → K) (w : K)

/-- The element is no more than `w` after `a`. -/
def near (a b : α) : Bool := decide (key b - key a ≤ w)

/-- The windows of a list; one unit of fuel per element is enough. -/
def cut : ℕ → List α → List (List α)
  | 0, _ => []
  | _ + 1, [] => []
  | n + 1, a :: as =>
    (a :: as).takeWhile (near key w a) :: cut n ((a :: as).dropWhile (near key w a))

/-- In the order of the keys. -/
def Sorted (l : List α) : Prop := l.Pairwise fun a b => key a ≤ key b

/-- On a list along which `p` is lost once and for all, its prefix is all of it. -/
theorem takeWhile_eq_filter {p : α → Bool} {l : List α}
    (h : l.Pairwise fun a b => p b = true → p a = true) :
    l.takeWhile p = l.filter p ∧ l.dropWhile p = l.filter fun a => !p a := by
  induction l with
  | nil => exact ⟨rfl, rfl⟩
  | cons a l ih =>
    obtain ⟨hhead, htail⟩ := List.pairwise_cons.1 h
    cases ha : p a with
    | true =>
      rw [List.takeWhile_cons_of_pos ha, List.dropWhile_cons_of_pos ha, List.filter_cons_of_pos ha,
        List.filter_cons_of_neg (by simp [ha]), (ih htail).1, (ih htail).2]
      exact ⟨rfl, rfl⟩
    | false =>
      have hnone : ∀ b ∈ l, p b = false := by
        intro b hb
        by_contra hpb
        rw [hhead b hb (Bool.eq_true_of_not_eq_false hpb)] at ha
        cases ha
      rw [List.takeWhile_cons_of_neg (by simp [ha]), List.dropWhile_cons_of_neg (by simp [ha])]
      refine ⟨?_, ?_⟩
      · rw [List.filter_cons_of_neg (by simp [ha]), List.filter_eq_nil_iff.2]
        intro b hb
        rw [hnone b hb]
        decide
      · rw [List.filter_eq_self.2]
        intro b hb
        rcases List.mem_cons.1 hb with rfl | hb
        · rw [ha]; rfl
        · rw [hnone b hb]; rfl

section
variable {key w} (hw : 0 ≤ w)
include hw

omit [IsOrderedAddMonoid K] in
/-- The first element is in its own window. -/
theorem near_self (a : α) : near key w a a = true :=
  decide_eq_true (by rwa [sub_self])

omit [IsOrderedAddMonoid K] in
theorem ne_nil_of_mem_cut {n : ℕ} {l : List α} : ∀ c ∈ cut key w n l, c ≠ [] := by
  induction n generalizing l with
  | zero => exact fun c hc => absurd hc List.not_mem_nil
  | succ n ih =>
    cases l with
    | nil => exact fun c hc => absurd hc List.not_mem_nil
    | cons a as =>
      intro c hc
      rcases List.mem_cons.1 hc with rfl | hc
      · rw [List.takeWhile_cons_of_pos (near_self hw a)]
        exact List.cons_ne_nil _ _
      · exact ih c hc

omit [IsOrderedAddMonoid K] in
theorem length_dropWhile_le (a : α) (as : List α) :
    ((a :: as).dropWhile (near key w a)).length ≤ as.length := by
  rw [List.dropWhile_cons_of_pos (near_self hw a)]
  exact (List.dropWhile_sublist _).length_le

omit [IsOrderedAddMonoid K] in
/-- No element is lost, repeated or in two windows. -/
theorem flatten_cut {n : ℕ} {l : List α} (hn : l.length ≤ n) : (cut key w n l).flatten = l := by
  induction n generalizing l with
  | zero =>
    rw [List.length_eq_zero_iff.1 (Nat.le_zero.1 hn)]
    rfl
  | succ n ih =>
    cases l with
    | nil => rfl
    | cons a as =>
      have hrest : ((a :: as).dropWhile (near key w a)).length ≤ n :=
        (length_dropWhile_le hw a as).trans (Nat.le_of_succ_le_succ hn)
      rw [cut, List.flatten_cons, ih hrest, List.takeWhile_append_dropWhile]

omit hw in
theorem span_cut {n : ℕ} {l : List α} (hl : Sorted key l) :
    ∀ c ∈ cut key w n l, ∀ a ∈ c, ∀ b ∈ c, key b - key a ≤ w := by
  induction n generalizing l with
  | zero => exact fun c hc => absurd hc List.not_mem_nil
  | succ n ih =>
    cases l with
    | nil => exact fun c hc => absurd hc List.not_mem_nil
    | cons x xs =>
      intro c hc
      rcases List.mem_cons.1 hc with rfl | hc
      · intro a ha b hb
        have hxa : key x ≤ key a := by
          rcases List.mem_cons.1 ((List.takeWhile_sublist _).subset ha) with rfl | ha
          · exact le_rfl
          · exact (List.pairwise_cons.1 hl).1 a ha
        have hnear : near key w x b = true := List.mem_takeWhile_imp hb
        exact (sub_le_sub_left hxa _).trans (of_decide_eq_true hnear)
      · exact ih (hl.sublist (List.dropWhile_sublist _)) c hc

end

/-! ## Blocks -/

/-- The element is not after any of the block. -/
def IsFirst (a : α) (block : List α) : Prop := a ∈ block ∧ ∀ b ∈ block, key a ≤ key b

/-- Blocks no wider than `w`, each starting more than `w` after the one before it starts. -/
structure Blocks (blocks : List (List α)) : Prop where
  ne_nil : ∀ T ∈ blocks, T ≠ []
  span : ∀ T ∈ blocks, ∀ a ∈ T, ∀ b ∈ T, key b - key a ≤ w
  apart : blocks.IsChain fun T U => ∀ a b, IsFirst key a T → IsFirst key b U → w < key b - key a

variable {key w}

omit [AddCommGroup K] [IsOrderedAddMonoid K] in
theorem exists_isFirst {T : List α} (hT : T ≠ []) : ∃ a, IsFirst key a T := by
  induction T with
  | nil => exact absurd rfl hT
  | cons a T ih =>
    by_cases hT : T = []
    · refine ⟨a, List.mem_cons_self, fun b hb => ?_⟩
      rw [hT, List.mem_singleton] at hb
      rw [hb]
    · obtain ⟨b, hb, hmin⟩ := ih hT
      rcases le_total (key a) (key b) with hab | hab
      · refine ⟨a, List.mem_cons_self, fun c hc => ?_⟩
        rcases List.mem_cons.1 hc with rfl | hc
        · exact le_rfl
        · exact hab.trans (hmin c hc)
      · refine ⟨b, List.mem_cons_of_mem a hb, fun c hc => ?_⟩
        rcases List.mem_cons.1 hc with rfl | hc
        · exact hab
        · exact hmin c hc

omit [IsOrderedAddMonoid K] in
theorem Blocks.tail {T : List α} {Ts : List (List α)} (h : Blocks key w (T :: Ts)) :
    Blocks key w Ts :=
  ⟨fun U hU => h.ne_nil U (List.mem_cons_of_mem T hU),
    fun U hU => h.span U (List.mem_cons_of_mem T hU), h.apart.tail⟩

/-- All that is not of the first block comes more than `w` after its first element. -/
theorem Blocks.far {T : List α} {Ts : List (List α)} (h : Blocks key w (T :: Ts)) (hw : 0 ≤ w)
    {a : α} (ha : IsFirst key a T) : ∀ b ∈ Ts.flatten, w < key b - key a := by
  induction Ts generalizing T a with
  | nil => exact fun b hb => absurd hb List.not_mem_nil
  | cons U Us ih =>
    intro b hb
    obtain ⟨u, hu⟩ : ∃ u, IsFirst key u U := exists_isFirst (h.ne_nil U (by simp))
    have hau : w < key u - key a := (List.isChain_cons_cons.1 h.apart).1 a u ha hu
    rw [List.flatten_cons, List.mem_append] at hb
    rcases hb with hb | hb
    · exact hau.trans_le (sub_le_sub_right (hu.2 b hb) _)
    · have hub := ih h.tail hu b hb
      have hpos : 0 ≤ key u - key a := hw.trans (le_of_lt hau)
      calc w < key b - key u := hub
        _ ≤ (key b - key u) + (key u - key a) := le_add_of_nonneg_right hpos
        _ = key b - key a := by abel

/-- What is near the first element is the first block, and the rest the other blocks. -/
theorem Blocks.filter_near {T : List α} {Ts : List (List α)} (h : Blocks key w (T :: Ts))
    (hw : 0 ≤ w) {a : α} (ha : IsFirst key a T) :
    (T ++ Ts.flatten).filter (near key w a) = T ∧
      ((T ++ Ts.flatten).filter fun b => !near key w a b) = Ts.flatten := by
  have hin : ∀ b ∈ T, near key w a b = true := fun b hb =>
    decide_eq_true (h.span T List.mem_cons_self a ha.1 b hb)
  have hout : ∀ b ∈ Ts.flatten, near key w a b = false := fun b hb =>
    decide_eq_false (not_le.2 (h.far hw ha b hb))
  rw [List.filter_append, List.filter_append]
  constructor
  · rw [List.filter_eq_self.2 hin, List.filter_eq_nil_iff.2 fun b hb => by rw [hout b hb]; decide,
      List.append_nil]
  · rw [List.filter_eq_nil_iff.2 fun b hb => by rw [hin b hb]; decide,
      List.filter_eq_self.2 fun b hb => by rw [hout b hb]; rfl, List.nil_append]

/-- The first element of the sorted list is a first one of the first block. -/
theorem Blocks.isFirst_head {T : List α} {Ts : List (List α)} (h : Blocks key w (T :: Ts))
    (hw : 0 ≤ w) {x : α} {xs : List α} (hl : Sorted key (x :: xs))
    (hperm : (x :: xs).Perm (T ++ Ts.flatten)) : IsFirst key x T := by
  have hfirst : ∀ b ∈ T ++ Ts.flatten, key x ≤ key b := by
    intro b hb
    rcases List.mem_cons.1 (hperm.mem_iff.2 hb) with rfl | hb
    · exact le_rfl
    · exact (List.pairwise_cons.1 hl).1 b hb
  refine ⟨?_, fun b hb => hfirst b (List.mem_append_left _ hb)⟩
  have hx : x ∈ T ++ Ts.flatten := hperm.mem_iff.1 List.mem_cons_self
  refine (List.mem_append.1 hx).resolve_right fun hx => ?_
  obtain ⟨t, ht⟩ : ∃ t, IsFirst key t T := exists_isFirst (h.ne_nil T List.mem_cons_self)
  have hpos : 0 < key x - key t := hw.trans_lt (h.far hw ht x hx)
  exact absurd (hfirst t (List.mem_append_left _ ht.1)) (not_le.2 (sub_pos.1 hpos))

/-- **The windows of separated blocks are the blocks**, in whatever order the list came before it
    was sorted. -/
theorem cut_blocks {n : ℕ} {l : List α} {blocks : List (List α)} (hw : 0 ≤ w)
    (hb : Blocks key w blocks) (hl : Sorted key l) (hperm : l.Perm blocks.flatten)
    (hn : l.length ≤ n) : List.Forall₂ List.Perm (cut key w n l) blocks := by
  induction blocks generalizing l n with
  | nil =>
    rw [hperm.eq_nil]
    cases n <;> exact .nil
  | cons T Ts ih =>
    rw [List.flatten_cons] at hperm
    cases l with
    | nil => exact absurd (List.append_eq_nil_iff.1 hperm.symm.eq_nil).1 (hb.ne_nil T (by simp))
    | cons x xs =>
      cases n with
      | zero => cases hn
      | succ n =>
        have hx := hb.isFirst_head hw hl hperm
        obtain ⟨hT, hTs⟩ := hb.filter_near hw hx
        have hmono : (x :: xs).Pairwise fun a b => near key w x b = true → near key w x a = true :=
          hl.imp fun {a b} hab h =>
            decide_eq_true ((sub_le_sub_right hab _).trans (of_decide_eq_true h))
        obtain ⟨htake, hdrop⟩ := takeWhile_eq_filter hmono
        have hhead := hperm.filter (near key w x)
        have hrest := hperm.filter fun b => !near key w x b
        have hlen : ((x :: xs).dropWhile (near key w x)).length ≤ n :=
          (length_dropWhile_le hw x xs).trans (Nat.le_of_succ_le_succ hn)
        rw [hT] at hhead
        rw [hTs] at hrest
        rw [hdrop] at hlen
        rw [cut, htake, hdrop]
        exact .cons hhead (ih hb.tail (hl.sublist List.filter_sublist) hrest hlen)

end Windows
