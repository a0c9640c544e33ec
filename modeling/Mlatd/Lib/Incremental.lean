/-
  Readers that take a stream turn by turn.

  A turn looks at the bytes at hand and either takes some of them, with something to hand on and a
  state for the next turn, or stops with a reason. `Local turn`: a turn that is enough for some
  bytes is the same turn when more bytes follow. A local reader that is cut off has handed on a
  prefix of what it would have (`read_initial`). `Item` is a piece of the stream that one turn takes
  and no shorter piece is enough for; of a chain of items a cut stream hands on exactly those it
  holds whole (`read_cut`).
-/
import Mathlib.Data.List.Basic
import Mathlib.Tactic.Common

namespace Incremental

variable {σ α β ε : Type*} (turn : σ → List α → Except ε (β × σ × List α))

/-- What the first `n` turns hand on, and why the reader stopped if it did. -/
def read : ℕ → σ → List α → List β × Option ε
  | 0, _, _ => ([], none)
  | n + 1, s, rd =>
    match turn s rd with
    | .error e => ([], some e)
    | .ok (out, s, rd) => let p := read n s rd; (out :: p.1, p.2)

/-- What follows the bytes a turn takes does not matter to it. -/
def Local : Prop := ∀ s rd out s' rest, turn s rd = .ok (out, s', rest) →
  ∀ more, turn s (rd ++ more) = .ok (out, s', rest ++ more)

/-- One turn takes `b` whole; at the start of `b` and within it the reader stops with `exit`. -/
structure Item (exit : List α → ε) (s : σ) (b : List α) (out : β) (s' : σ) : Prop where
  whole : turn s b = .ok (out, s', [])
  short : ∀ {p}, p <+: b → p ≠ b → turn s p = .error (exit p)

/-- Items one after the other. -/
inductive Items (exit : List α → ε) : σ → List (List α) → List β → Prop where
  | nil {s : σ} : turn s [] = .error (exit []) → Items exit s [] []
  | cons {s s' : σ} {b : List α} {bs : List (List α)} {out : β} {outs : List β} :
      Item turn exit s b out s' → Items exit s' bs outs → Items exit s (b :: bs) (out :: outs)

variable {turn}

theorem read_succ_of_error {s : σ} {rd : List α} {e : ε} (h : turn s rd = .error e) (n : ℕ) :
    read turn (n + 1) s rd = ([], some e) := by
  rw [read, h]

theorem read_succ_of_ok {s s' : σ} {rd rest : List α} {out : β}
    (h : turn s rd = .ok (out, s', rest)) (n : ℕ) :
    read turn (n + 1) s rd = (out :: (read turn n s' rest).1, (read turn n s' rest).2) := by
  rw [read, h]

/-- More turns hand on more. -/
theorem read_mono {m n : ℕ} (h : m ≤ n) (s : σ) (rd : List α) :
    (read turn m s rd).1 <+: (read turn n s rd).1 := by
  induction m generalizing n s rd with
  | zero => exact List.nil_prefix
  | succ m ih =>
    obtain ⟨n, rfl⟩ : ∃ k, n = k + 1 := ⟨n - 1, by omega⟩
    cases hturn : turn s rd with
    | error e =>
      rw [read_succ_of_error hturn]
      exact List.nil_prefix
    | ok r =>
      obtain ⟨out, s', rest⟩ := r
      rw [read_succ_of_ok hturn, read_succ_of_ok hturn, List.prefix_cons_inj]
      exact ih (by omega) s' rest

/-- A stream cut off hands on a prefix. -/
theorem read_initial (hl : Local turn) (n : ℕ) (s : σ) (rd more : List α) :
    (read turn n s rd).1 <+: (read turn n s (rd ++ more)).1 := by
  induction n generalizing s rd with
  | zero => exact List.prefix_refl _
  | succ n ih =>
    cases hturn : turn s rd with
    | error e =>
      rw [read_succ_of_error hturn]
      exact List.nil_prefix
    | ok r =>
      obtain ⟨out, s', rest⟩ := r
      rw [read_succ_of_ok hturn, read_succ_of_ok (hl _ _ _ _ _ hturn more), List.prefix_cons_inj]
      exact ih s' rest

theorem Items.length_eq {exit : List α → ε} {s : σ} {bs : List (List α)} {outs : List β}
    (h : Items turn exit s bs outs) : outs.length = bs.length := by
  induction h with
  | nil => rfl
  | cons _ _ ih => rw [List.length_cons, List.length_cons, ih]

/-- **Of a cut stream the whole items are handed on**, in order, and nothing else. -/
theorem read_cut (hl : Local turn) {exit : List α → ε} {s : σ} {bs : List (List α)}
    {outs : List β} (h : Items turn exit s bs outs) {sent : List α} (hsent : sent <+: bs.flatten) :
    ∃ k rest, k ≤ bs.length ∧ sent = (bs.take k).flatten ++ rest ∧
      (∀ b, bs[k]? = some b → rest <+: b ∧ rest ≠ b) ∧ (k = bs.length → rest = []) ∧
      ∀ n, read turn n s sent = (outs.take (min n k), if n ≤ k then none else some (exit rest)) := by
  induction h generalizing sent with
  | nil hstop =>
    obtain rfl := List.prefix_nil.1 hsent
    refine ⟨0, [], Nat.le_refl _, rfl, fun b hb => by simp at hb, fun _ => rfl, fun n => ?_⟩
    cases n with
    | zero => rfl
    | succ n => rw [read_succ_of_error hstop]; rfl
  | @cons s s' b bs out outs hitem _ ih =>
    rw [List.flatten_cons] at hsent
    by_cases hb : b <+: sent
    · obtain ⟨sent, rfl⟩ := hb
      obtain ⟨k, rest, hk, rfl, hrest, hend, hread⟩ := ih ((List.prefix_append_right_inj b).1 hsent)
      refine ⟨k + 1, rest, Nat.succ_le_succ hk, ?_, hrest, fun h => hend (by simpa using h),
        fun n => ?_⟩
      · rw [List.take_succ_cons, List.flatten_cons, List.append_assoc]
      · cases n with
        | zero => rfl
        | succ n =>
          have hturn := hl _ _ _ _ _ hitem.whole ((bs.take k).flatten ++ rest)
          rw [List.nil_append] at hturn
          rw [read_succ_of_ok hturn, hread n, Nat.succ_min_succ, List.take_succ_cons]
          simp only [Nat.succ_le_succ_iff]
    · have hpre : sent <+: b := by
        rcases List.prefix_or_prefix_of_prefix hsent (List.prefix_append b bs.flatten) with h | h
        · exact h
        · exact absurd h hb
      have hne : sent ≠ b := fun h => hb (h ▸ List.prefix_refl _)
      refine ⟨0, sent, Nat.zero_le _, rfl, fun b' hb' => ?_, fun h => by simp at h, fun n => ?_⟩
      · cases hb'
        exact ⟨hpre, hne⟩
      · cases n with
        | zero => rfl
        | succ n => rw [read_succ_of_error (hitem.short hpre hne)]; rfl

end Incremental
