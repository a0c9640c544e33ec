/-
  The books of a buffer that a state machine keeps, and of a counter.

  `gather f` lists along a run what `f` says of each step. A step books the buffer right when it
  leaves it, adds what came at its end, drops the values of one kind, or hands the whole of it on
  (`Books`). Over a run of such steps (`gather_books`) what was handed on, followed by what is
  still held, is in order from what was held and came, and with what was dropped it is all of it,
  each value once. A counter that starts over with what it counts is read from the last moment it
  started (`exists_since`, `count_gather`).
-/
import Mlatd.Lib.Run
import Mathlib.Algebra.Order.Group.Multiset
import Mathlib.Data.List.Induction
import Mathlib.Tactic.Abel

namespace Ledger

variable {σ ε α : Type*}

/-- What `f` says of each step of the run from `s`, in order. -/
def gather (step : σ → ε → σ) (f : σ → ε → List α) : σ → List ε → List α
  | _, [] => []
  | s, e :: es => f s e ++ gather step f (step s e) es

/-- What a step does to the values `held`: what came, what it handed on, what it dropped, and what
    is held after it. -/
inductive Books (held : List α) : List α → List α → List α → List α → Prop
  | keep : Books held [] [] [] held
  | add (came : List α) : Books held came [] [] (held ++ came)
  | drop (p : α → Bool) : Books held [] [] (held.filter p) (held.filter fun a => !p a)
  | hand : Books held [] held [] []

namespace Books

variable {held came handed dropped held' : List α}

theorem sublist (h : Books held came handed dropped held') :
    (handed ++ held').Sublist (held ++ came) := by
  cases h with
  | keep | hand => simp
  | add => exact List.Sublist.refl _
  | drop p =>
    rw [List.nil_append, List.append_nil]
    exact List.filter_sublist

theorem perm (h : Books held came handed dropped held') :
    (held ++ came).Perm (handed ++ held' ++ dropped) := by
  cases h with
  | keep | hand | add => simp
  | drop p =>
    rw [List.nil_append, List.append_nil]
    exact (List.filter_append_perm p held).symm.trans List.perm_append_comm

end Books

variable {step : σ → ε → σ} {held : σ → List α} {came handed dropped : σ → ε → List α}
  {I : σ → Prop}

/-- **The books of a run balance.** -/
theorem gather_books (hI : ∀ s e, I s → I (step s e))
    (hb : ∀ s e, I s → Books (held s) (came s e) (handed s e) (dropped s e) (held (step s e)))
    {s : σ} (hs : I s) (es : List ε) :
    (gather step handed s es ++ held (Run.exec step s es)).Sublist
        (held s ++ gather step came s es) ∧
      (held s ++ gather step came s es).Perm
        (gather step handed s es ++ held (Run.exec step s es) ++ gather step dropped s es) := by
  induction es generalizing s with
  | nil => simp [gather]
  | cons e es ih =>
    have h1 := hb s e hs
    obtain ⟨ihs, ihp⟩ := ih (hI s e hs)
    simp only [gather, Run.exec_cons]
    constructor
    · have h2 := (List.Sublist.refl (handed s e)).append ihs
      have h3 := h1.sublist.append (List.Sublist.refl (gather step came (step s e) es))
      rw [← List.append_assoc, ← List.append_assoc] at h2
      rw [← List.append_assoc]
      exact h2.trans h3
    · have h2 := Multiset.coe_eq_coe.2 h1.perm
      have h3 := Multiset.coe_eq_coe.2 ihp
      rw [← Multiset.coe_eq_coe]
      simp only [← Multiset.coe_add] at h2 h3 ⊢
      rw [← add_assoc, h2, add_right_comm, add_assoc (handed s e : Multiset α), h3]
      abel

/-! ## Counters -/

/-- Every run has a last moment at which `P` does not hold, if it does not at the start. -/
theorem exists_since {P : σ → Prop} {s : σ} (hs : ¬ P s) (es : List ε) :
    ∃ fs gs, es = fs ++ gs ∧ ¬ P (Run.exec step s fs) ∧
      ∀ hs, hs ≠ [] → hs <+: gs → P (Run.exec step s (fs ++ hs)) := by
  induction es using List.reverseRecOn with
  | nil => exact ⟨[], [], rfl, hs, fun hs hne hpre => absurd (List.prefix_nil.1 hpre) hne⟩
  | append_singleton es e ih =>
    obtain ⟨fs, gs, rfl, hfs, hgs⟩ := ih
    by_cases hp : P (Run.exec step s (fs ++ gs ++ [e]))
    · refine ⟨fs, gs ++ [e], List.append_assoc _ _ _, hfs, fun hs hne hpre => ?_⟩
      rcases List.prefix_concat_iff.1 hpre with rfl | h
      · rwa [List.append_assoc] at hp
      · exact hgs hs hne h
    · exact ⟨fs ++ gs ++ [e], [], (List.append_nil _).symm, hp,
        fun hs hne hpre => absurd (List.prefix_nil.1 hpre) hne⟩

/-- A counter that each step into `P` moves by what `f` says of it counts what `f` says of a run
    within `P`. -/
theorem count_gather {P : σ → Prop} {f : σ → ε → List α} {n : σ → ℕ}
    (h : ∀ s e, P (step s e) → n (step s e) = n s + (f s e).length) (s : σ) {es : List ε}
    (hP : ∀ hs, hs ≠ [] → hs <+: es → P (Run.exec step s hs)) :
    n (Run.exec step s es) = n s + (gather step f s es).length := by
  induction es generalizing s with
  | nil => rfl
  | cons e es ih =>
    have h1 : P (step s e) := hP [e] (by simp) ⟨es, rfl⟩
    rw [Run.exec_cons, ih (step s e) fun hs hne hpre => ?_, h s e h1, gather, List.length_append,
      Nat.add_assoc]
    exact hP (e :: hs) (by simp) (List.cons_prefix_cons.2 ⟨rfl, hpre⟩)

end Ledger
