/-
  A broadcast channel that keeps its last `cap` values. Each receiver has a place in the log of all
  values sent; one that falls more than `cap` behind loses the oldest and goes on with what is kept.

  `recv_sound`: what a receiver has taken is, in order and without repetition, from what was sent
  between its subscription and its place. `recv_exact_iff`: a receive keeps that to everything sent
  exactly when the receiver has not fallen behind.
-/
import Mathlib.Data.List.Basic
import Mathlib.Tactic.Common

namespace Broadcast

variable {α : Type*}

/-- Where a receiver began, what it takes next, and what it has taken. -/
structure Receiver (α : Type*) where
  first : ℕ
  next : ℕ
  taken : List α

/-- A receiver of what is sent after `log`. -/
def subscribe (log : List α) : Receiver α := ⟨log.length, log.length, []⟩

namespace Receiver

variable (cap : ℕ) (log : List α) (r : Receiver α)

/-- The oldest value the receiver has not taken is no longer kept. -/
def Lags : Prop := r.next + cap < log.length

instance : Decidable (Lags cap log r) := inferInstanceAs (Decidable (_ < _))

/-- One receive: the value if there is one, or a jump to the oldest value kept. -/
def recv : Receiver α × Option α :=
  if r.Lags cap log then ({ r with next := log.length - cap }, none)
  else
    match log[r.next]? with
    | none => (r, none)
    | some a => ({ r with next := r.next + 1, taken := r.taken ++ [a] }, some a)

/-- What was sent from the subscription to the receiver's place. -/
def sent : List α := (log.drop r.first).take (r.next - r.first)

structure Sound : Prop where
  first_le : r.first ≤ r.next
  next_le : r.next ≤ log.length
  sublist : r.taken.Sublist (r.sent log)

/-- Everything sent was taken. -/
def Exact : Prop := r.taken = r.sent log

variable {cap log r}

theorem subscribe_sound (log : List α) : (subscribe log).Sound log :=
  ⟨Nat.le_refl _, Nat.le_refl _, List.nil_sublist _⟩

theorem subscribe_exact (log : List α) : (subscribe log).Exact log := by
  simp [Exact, sent, subscribe]

theorem sent_append (h : r.Sound log) (more : List α) : r.sent (log ++ more) = r.sent log := by
  have h1 := h.first_le
  have h2 := h.next_le
  unfold sent
  rw [List.drop_append_of_le_length (by omega), List.take_append_of_le_length]
  rw [List.length_drop]
  omega

/-- A receiver stays sound when more is sent. -/
theorem Sound.append (h : r.Sound log) (more : List α) : r.Sound (log ++ more) where
  first_le := h.first_le
  next_le := by
    have := h.next_le
    rw [List.length_append]
    omega
  sublist := by
    rw [sent_append h]
    exact h.sublist

theorem length_sent (h : r.Sound log) : (r.sent log).length = r.next - r.first := by
  have := h.next_le
  unfold sent
  rw [List.length_take, List.length_drop]
  omega

/-- What was sent up to the next place: one value more. -/
theorem sent_succ (h : r.Sound log) {a : α} (ha : log[r.next]? = some a) :
    (log.drop r.first).take (r.next + 1 - r.first) = r.sent log ++ [a] := by
  have h1 := h.first_le
  have hget : (log.drop r.first)[r.next - r.first]? = some a := by
    rw [List.getElem?_drop, Nat.add_sub_cancel' h1, ha]
  unfold sent
  rw [Nat.succ_sub h1, List.take_add_one, hget]
  rfl

/-- What a receive does: a jump, nothing, or the next value. -/
theorem recv_cases (cap : ℕ) (log : List α) (r : Receiver α) :
    (r.Lags cap log ∧ r.recv cap log = ({ r with next := log.length - cap }, none)) ∨
    (¬ r.Lags cap log ∧ log[r.next]? = none ∧ r.recv cap log = (r, none)) ∨
    (¬ r.Lags cap log ∧ ∃ a, log[r.next]? = some a ∧
      r.recv cap log = ({ r with next := r.next + 1, taken := r.taken ++ [a] }, some a)) := by
  unfold recv
  by_cases hlag : r.Lags cap log
  · rw [if_pos hlag]
    exact Or.inl ⟨hlag, rfl⟩
  · rw [if_neg hlag]
    cases ha : log[r.next]? with
    | none => exact Or.inr (Or.inl ⟨hlag, rfl, rfl⟩)
    | some a => exact Or.inr (Or.inr ⟨hlag, a, rfl, rfl⟩)

@[simp] theorem recv_first (cap : ℕ) (log : List α) (r : Receiver α) :
    (r.recv cap log).1.first = r.first := by
  rcases recv_cases cap log r with ⟨-, he⟩ | ⟨-, -, he⟩ | ⟨-, a, -, he⟩ <;> rw [he]

/-- What was taken stays in order and once each. -/
theorem recv_sound (h : r.Sound log) (cap : ℕ) : (r.recv cap log).1.Sound log := by
  have h1 := h.first_le
  rcases recv_cases cap log r with ⟨hlag, he⟩ | ⟨-, -, he⟩ | ⟨-, a, ha, he⟩
  · unfold Lags at hlag
    rw [he]
    refine ⟨by simp only; omega, Nat.sub_le _ _, h.sublist.trans ?_⟩
    unfold sent
    simp only
    exact (List.take_prefix_take_left (by omega)).sublist
  · rw [he]
    exact h
  · rw [he]
    obtain ⟨hlt, -⟩ := List.getElem?_eq_some_iff.1 ha
    refine ⟨by simp only; omega, hlt, ?_⟩
    unfold sent
    simp only
    rw [sent_succ h ha]
    exact h.sublist.append (List.Sublist.refl _)

/-- A receiver that has everything keeps it exactly when it does not lag. -/
theorem recv_exact_iff (h : r.Sound log) (he : r.Exact log) (cap : ℕ) :
    (r.recv cap log).1.Exact log ↔ ¬ r.Lags cap log := by
  have h1 := h.first_le
  have hsound := recv_sound h cap
  rcases recv_cases cap log r with ⟨hlag, hr⟩ | ⟨hlag, -, hr⟩ | ⟨hlag, a, ha, hr⟩
  · refine iff_of_false (fun hexact => ?_) (not_not.2 hlag)
    -- the jump passed over values that were not taken
    have hlen := congrArg List.length hexact
    rw [length_sent hsound, hr] at hlen
    have hlen' := congrArg List.length he
    rw [length_sent h] at hlen'
    unfold Lags at hlag
    simp only at hlen
    omega
  · rw [hr]
    exact iff_of_true he hlag
  · rw [hr]
    refine iff_of_true ?_ hlag
    unfold Exact at he ⊢
    unfold sent
    simp only
    rw [sent_succ h ha, he]

end Receiver

end Broadcast
