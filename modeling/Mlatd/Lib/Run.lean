/-
  Runs of a deterministic step function.

  `exec step s es` is the state after the events `es`. `Steps step C s es` says that every step
  of the run meets `C`, a condition on the event and on the state it is taken in. The rules: an
  invariant that every step meeting `C` keeps holds after every run whose steps all meet `C`
  (`invariant_of_steps`), an invariant that every step keeps holds after every run
  (`invariant`), a preorder relates all states of a run in order when it relates each to the next
  (`forall_le_iff_steps`), and where `C` is exactly what keeps the invariant, the runs that stay in
  it are the runs whose steps meet `C` (`forall_take_iff_steps`); for two runs of related events,
  so do the runs that stay related (`forall_take_related_iff`). Conditions met by all steps combine
  step by step (`steps_and`, `steps_forall`).
-/
import Mathlib.Data.List.Basic
import Mathlib.Tactic.Common

namespace Run

variable {σ ε : Type*} (step : σ → ε → σ)

/-- The state after the events `es`, from `s`. -/
def exec (s : σ) (es : List ε) : σ := es.foldl step s

/-- Every step of the run from `s` meets `C`. -/
def Steps (C : σ → ε → Prop) : σ → List ε → Prop
  | _, [] => True
  | s, e :: es => C s e ∧ Steps C (step s e) es

instance decidableSteps (C : σ → ε → Prop) [∀ s e, Decidable (C s e)] :
    (s : σ) → (es : List ε) → Decidable (Steps step C s es)
  | _, [] => isTrue trivial
  | s, e :: es => @instDecidableAnd _ _ _ (decidableSteps C (step s e) es)

variable {step}

@[simp] theorem exec_nil (s : σ) : exec step s [] = s := rfl

@[simp] theorem exec_cons (s : σ) (e : ε) (es : List ε) :
    exec step s (e :: es) = exec step (step s e) es := rfl

theorem exec_append (s : σ) (es fs : List ε) :
    exec step s (es ++ fs) = exec step (exec step s es) fs :=
  List.foldl_append

theorem exec_concat (s : σ) (es : List ε) (e : ε) :
    exec step s (es ++ [e]) = step (exec step s es) e :=
  exec_append s es [e]

/-- The run up to and including event `n` is the run before it and one step. -/
theorem exec_take_succ (s : σ) (es : List ε) (n : ℕ) (h : n < es.length) :
    exec step s (es.take (n + 1)) = step (exec step s (es.take n)) es[n] := by
  rw [List.take_succ_eq_append_getElem h, exec_concat]

theorem steps_append {C : σ → ε → Prop} (s : σ) (es fs : List ε) :
    Steps step C s (es ++ fs) ↔ Steps step C s es ∧ Steps step C (exec step s es) fs := by
  induction es generalizing s with
  | nil => simp [Steps]
  | cons e es ih => simp only [List.cons_append, Steps, exec_cons, ih, and_assoc]

/-- The condition holds of each event in the state before it. -/
theorem Steps.getElem {C : σ → ε → Prop} {s : σ} {es : List ε} (h : Steps step C s es) {n : ℕ}
    {e : ε} (he : es[n]? = some e) : C (exec step s (es.take n)) e := by
  obtain ⟨hn, rfl⟩ := List.getElem?_eq_some_iff.1 he
  have h1 : es = es.take n ++ es[n] :: es.drop (n + 1) := by
    rw [List.getElem_cons_drop, List.take_append_drop]
  rw [h1, steps_append] at h
  exact h.2.1

theorem steps_of_forall {C : σ → ε → Prop} (h : ∀ s e, C s e) (s : σ) (es : List ε) :
    Steps step C s es := by
  induction es generalizing s with
  | nil => trivial
  | cons e es ih => exact ⟨h _ _, ih _⟩

theorem Steps.mono {C D : σ → ε → Prop} (h : ∀ s e, C s e → D s e) {s : σ} {es : List ε}
    (hc : Steps step C s es) : Steps step D s es := by
  induction es generalizing s with
  | nil => trivial
  | cons e es ih => exact ⟨h _ _ hc.1, ih hc.2⟩

/-- Two conditions that agree wherever the invariant holds that `B` keeps are met by the same runs
    among those that meet `B`. -/
theorem steps_congr_of_steps {I : σ → Prop} {B C D : σ → ε → Prop}
    (hI : ∀ s e, I s → B s e → I (step s e)) (h : ∀ s e, I s → B s e → (C s e ↔ D s e)) {s : σ}
    {es : List ε} (hs : I s) (hb : Steps step B s es) : Steps step C s es ↔ Steps step D s es := by
  induction es generalizing s with
  | nil => exact Iff.rfl
  | cons e es ih => exact and_congr (h s e hs hb.1) (ih (hI s e hs hb.1) hb.2)

theorem Steps.take {C : σ → ε → Prop} {s : σ} {es : List ε} (h : Steps step C s es) (n : ℕ) :
    Steps step C s (es.take n) := by
  rw [← List.take_append_drop n es, steps_append] at h
  exact h.1

theorem steps_and {C D : σ → ε → Prop} (s : σ) (es : List ε) :
    Steps step (fun s e => C s e ∧ D s e) s es ↔ Steps step C s es ∧ Steps step D s es := by
  induction es generalizing s with
  | nil => exact ⟨fun _ => ⟨trivial, trivial⟩, fun _ => trivial⟩
  | cons e es ih => simp only [Steps, ih, and_and_and_comm]

/-- A family of conditions is met step by step or member by member. -/
theorem steps_forall {ι : Type*} {C : ι → σ → ε → Prop} (s : σ) (es : List ε) :
    Steps step (fun s e => ∀ i, C i s e) s es ↔ ∀ i, Steps step (C i) s es := by
  induction es generalizing s with
  | nil => exact ⟨fun _ _ => trivial, fun _ => trivial⟩
  | cons e es ih => simp only [Steps, ih, forall_and]

/-- An invariant that every step meeting `C` keeps holds after every run whose steps meet `C`. -/
theorem invariant_of_steps {I : σ → Prop} {C : σ → ε → Prop}
    (h : ∀ s e, I s → C s e → I (step s e)) {s : σ} {es : List ε} (hs : I s)
    (hc : Steps step C s es) : I (exec step s es) := by
  induction es generalizing s with
  | nil => exact hs
  | cons e es ih => exact ih (h s e hs hc.1) hc.2

/-- An invariant that every step keeps holds after every run. -/
theorem invariant {I : σ → Prop} (h : ∀ s e, I s → I (step s e)) {s : σ} (hs : I s)
    (es : List ε) : I (exec step s es) :=
  invariant_of_steps (C := fun _ _ => True) (fun s e hi _ => h s e hi) hs
    (steps_of_forall (fun _ _ => trivial) s es)

/-- Two conditions that agree wherever the invariant holds are met by the same runs. -/
theorem steps_congr {I : σ → Prop} {C D : σ → ε → Prop} (hI : ∀ s e, I s → I (step s e))
    (h : ∀ s e, I s → (C s e ↔ D s e)) {s : σ} (hs : I s) (es : List ε) :
    Steps step C s es ↔ Steps step D s es := by
  induction es generalizing s with
  | nil => exact Iff.rfl
  | cons e es ih => exact and_congr (h s e hs) (ih (hI s e hs))

/-- What relates every state of a run to every later one relates each to its next. -/
theorem forall_le_iff_steps {R : σ → σ → Prop} (hrefl : ∀ s, R s s)
    (htrans : ∀ s t u, R s t → R t u → R s u) (s : σ) (es : List ε) :
    (∀ m n, m ≤ n → R (exec step s (es.take m)) (exec step s (es.take n))) ↔
      Steps step (fun s e => R s (step s e)) s es := by
  induction es generalizing s with
  | nil => simp [Steps, hrefl]
  | cons e es ih =>
    constructor
    · intro h
      exact ⟨h 0 1 (Nat.zero_le 1), (ih _).1 fun m n hmn => h (m + 1) (n + 1) (by omega)⟩
    · rintro ⟨h, hs⟩ m n hmn
      have ih' := (ih _).2 hs
      cases n with
      | zero =>
        obtain rfl : m = 0 := by omega
        exact hrefl _
      | succ n =>
        cases m with
        | zero => exact htrans _ _ _ h (ih' 0 n (Nat.zero_le n))
        | succ m => exact ih' m n (by omega)

/-! ## Counting steps -/

/-- How many steps of the run from `s` meet `p`. -/
def count (step : σ → ε → σ) (p : σ → ε → Bool) : σ → List ε → ℕ
  | _, [] => 0
  | s, e :: es => (p s e).toNat + count step p (step s e) es

theorem count_concat (p : σ → ε → Bool) (s : σ) (es : List ε) (e : ε) :
    count step p s (es ++ [e]) =
      count step p s es + (p (exec step s es) e).toNat := by
  induction es generalizing s with
  | nil => simp [count]
  | cons e' es ih =>
    simp only [List.cons_append, count, exec_cons, ih]
    omega

/-! ## Runs of an instrumented step -/

section
variable {τ : Type*} {step' : τ → ε → τ} {proj : τ → σ}

/-- A step function that projects to `step` has runs that project to its runs. -/
theorem exec_proj (h : ∀ t e, proj (step' t e) = step (proj t) e) (t : τ) (es : List ε) :
    proj (exec step' t es) = exec step (proj t) es := by
  induction es generalizing t with
  | nil => rfl
  | cons e es ih => rw [exec_cons, exec_cons, ih, h]

theorem steps_proj (h : ∀ t e, proj (step' t e) = step (proj t) e) {C : σ → ε → Prop} (t : τ)
    (es : List ε) : Steps step' (fun t e => C (proj t) e) t es ↔ Steps step C (proj t) es := by
  induction es generalizing t with
  | nil => exact Iff.rfl
  | cons e es ih => simp only [Steps, ih, h]

end

/-! ## Two runs -/

/-- Where related events take related states to related states exactly when both steps meet `C`,
    two runs of related events stay related exactly when all their steps meet `C`. -/
theorem forall_take_related_iff {R : σ → σ → Prop} {E : ε → ε → Prop} {C : σ → ε → Prop}
    (h : ∀ s s' e e', R s s' → E e e' → (R (step s e) (step s' e') ↔ C s e ∧ C s' e'))
    {s s' : σ} {es es' : List ε} (hs : R s s') (he : List.Forall₂ E es es') :
    (∀ n, R (exec step s (es.take n)) (exec step s' (es'.take n))) ↔
      Steps step C s es ∧ Steps step C s' es' := by
  induction he generalizing s s' with
  | nil => simp [Steps, hs]
  | @cons e e' es es' he hes ih =>
    constructor
    · intro hr
      have h1 : R (step s e) (step s' e') := hr 1
      obtain ⟨hc, hc'⟩ := (h s s' e e' hs he).1 h1
      obtain ⟨hcs, hcs'⟩ := (ih h1).1 fun n => hr (n + 1)
      exact ⟨⟨hc, hcs⟩, hc', hcs'⟩
    · rintro ⟨⟨hc, hcs⟩, hc', hcs'⟩ n
      cases n with
      | zero => exact hs
      | succ n => exact (ih ((h s s' e e' hs he).2 ⟨hc, hc'⟩)).2 ⟨hcs, hcs'⟩ n

/-! ## Exactly the runs that stay in a set -/

/-- Where each step within `P` keeps `I`, and keeps `P` exactly when it meets `C`, a run is in `P`
    throughout exactly when all its steps meet `C`. -/
theorem forall_take_iff_steps {I P : σ → Prop} {A : ε → Prop} {C : σ → ε → Prop}
    (hI : ∀ s e, A e → I s → P s → P (step s e) → I (step s e))
    (hP : ∀ s e, A e → I s → P s → (P (step s e) ↔ C s e)) {s : σ} {es : List ε}
    (hs : I s) (hp : P s) (ha : ∀ e ∈ es, A e) :
    (∀ n, P (exec step s (es.take n))) ↔ Steps step C s es := by
  induction es generalizing s with
  | nil => simp [Steps, hp]
  | cons e es ih =>
    have he : A e := ha e List.mem_cons_self
    have hes : ∀ e' ∈ es, A e' := fun e' h => ha e' (List.mem_cons_of_mem e h)
    constructor
    · intro h
      have h1 : P (step s e) := h 1
      exact ⟨(hP s e he hs hp).1 h1, (ih (hI s e he hs hp h1) h1 hes).1 fun n => h (n + 1)⟩
    · rintro ⟨hc, hcs⟩ n
      have h1 : P (step s e) := (hP s e he hs hp).2 hc
      cases n with
      | zero => exact hp
      | succ n => exact (ih (hI s e he hs hp h1) h1 hes).2 hcs n

end Run
