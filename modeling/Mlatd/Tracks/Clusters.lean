/-
  Clusters are transmissions (state.rs, solve_group): the cut of a group's converted arrivals, in
  exact arithmetic.

  The loop is the library's `Windows.cut` on the arrivals' times (`clusters_eq_cut`), and the sort
  before it is one by time, whatever order the reports came in (`sortArrivals_perm`).
-/
import Mlatd.Lib.Exact
import Mlatd.Lib.Windows
import Mlatd.State.Cluster

namespace Mlatd

/-- Lists of arrivals, each of one transmission: no wider than a cluster, the first arrival of the
    next more than a cluster's span after the first of the one before. -/
abbrev Transmissions (txs : List (List (Arrival ℝ))) : Prop :=
  Windows.Blocks Arrival.t clusterSpanS txs

theorem clusterSpanS_nonneg : (0 : ℝ) ≤ clusterSpanS := by norm_num [clusterSpanS]

theorem clusters_eq_cut (n : ℕ) (l : List (Arrival ℝ)) :
    clusters n l = Windows.cut Arrival.t clusterSpanS n l := by
  induction n generalizing l with
  | zero => cases l <;> rfl
  | succ n ih =>
    cases l with
    | nil => rfl
    | cons a as =>
      rw [clusters, ih]
      rfl

theorem sortArrivals_perm (conv : List (Arrival ℝ)) : (sortArrivals conv).Perm conv :=
  List.perm_insertionSort _ conv

theorem sortArrivals_sorted (conv : List (Arrival ℝ)) :
    Windows.Sorted Arrival.t (sortArrivals conv) := by
  have htotal := F64.TotalCmp.total_on (Arrival.t : Arrival ℝ → ℝ)
  have htrans := F64.TotalCmp.trans_on (Arrival.t : Arrival ℝ → ℝ)
  exact (List.pairwise_insertionSort _ conv).imp fun h => of_decide_eq_true h

theorem length_sortArrivals (conv : List (Arrival ℝ)) : (sortArrivals conv).length = conv.length :=
  (sortArrivals_perm conv).length_eq

/-- **Clusters are transmissions.** The clusters of a list of arrivals are not empty, are the
    sorted list put end to end, and span no more than `clusterSpanS`; of the arrivals of separate
    transmissions, each cluster is one transmission's. They are what `solveGroup` solves. -/
theorem clusters_are_transmissions (conv : List (Arrival ℝ)) :
    (∀ c ∈ clusters conv.length (sortArrivals conv), c ≠ []) ∧
    (clusters conv.length (sortArrivals conv)).flatten = sortArrivals conv ∧
    (sortArrivals conv).Perm conv ∧ (sortArrivals conv).Pairwise (fun a b => a.t ≤ b.t) ∧
    (∀ c ∈ clusters conv.length (sortArrivals conv), ∀ a ∈ c, ∀ b ∈ c,
      b.t - a.t ≤ clusterSpanS) ∧
    (∀ txs, Transmissions txs → conv.Perm txs.flatten →
      List.Forall₂ List.Perm (clusters conv.length (sortArrivals conv)) txs) ∧
    ∀ (s : State ℝ) (g : Group ℝ) (env : Env ℝ) (clk : ℕ → Instant), s.conv g = conv →
      4 ≤ g.members.length → 4 ≤ conv.length →
      s.solveGroup env clk g = s.solveClusters env clk g (s.electRef g.members) 0
        (clusters conv.length (sortArrivals conv)) := by
  have hsorted := sortArrivals_sorted conv
  have hlen := (length_sortArrivals conv).le
  rw [clusters_eq_cut]
  refine ⟨Windows.ne_nil_of_mem_cut clusterSpanS_nonneg,
    Windows.flatten_cut clusterSpanS_nonneg hlen, sortArrivals_perm conv, hsorted,
    Windows.span_cut hsorted, ?_, ?_⟩
  · intro txs htxs hperm
    exact Windows.cut_blocks clusterSpanS_nonneg htxs hsorted
      ((sortArrivals_perm conv).trans hperm) hlen
  · rintro s g env clk rfl hmembers hconv
    unfold State.solveGroup
    rw [if_neg (by omega)]
    simp only
    rw [if_neg (by omega), clusters_eq_cut]

/-- An arrival at `rx`, seconds on the reference clock. -/
noncomputable def arrivalAt (rx : ℕ) (t : ℝ) : Arrival ℝ := ⟨rx, t, 0, 0⟩

/-- What four receivers heard of a transmission, and two of them again 20 ms later. -/
noncomputable def heardTwice : List (List (Arrival ℝ)) :=
  [[arrivalAt 0 1, arrivalAt 1 1.0002, arrivalAt 2 1.0007, arrivalAt 3 1.002],
    [arrivalAt 0 1.02, arrivalAt 2 1.0207]]

theorem heardTwice_transmissions : Transmissions heardTwice where
  ne_nil := by simp [heardTwice]
  span := by
    intro T hT a ha b hb
    simp only [heardTwice, List.mem_cons, List.not_mem_nil, or_false] at hT
    rcases hT with rfl | rfl <;> simp only [List.mem_cons, List.not_mem_nil, or_false] at ha hb
    · rcases ha with rfl | rfl | rfl | rfl <;> rcases hb with rfl | rfl | rfl | rfl <;>
        norm_num [arrivalAt, clusterSpanS]
    · rcases ha with rfl | rfl <;> rcases hb with rfl | rfl <;>
        norm_num [arrivalAt, clusterSpanS]
  apart := by
    refine List.isChain_pair.2 fun a b ha hb => ?_
    have ha1 := ha.2 (arrivalAt 0 1) (by simp)
    have hb1 : arrivalAt 0 1.02 = b ∨ arrivalAt 2 1.0207 = b := by simpa [eq_comm] using hb.1
    rcases hb1 with rfl | rfl <;> norm_num [arrivalAt, clusterSpanS] at ha1 ⊢ <;> linarith

/-- The reports came in out of order, those of the two transmissions mixed. -/
theorem clusters_are_transmissions_twice :
    List.Forall₂ List.Perm
      (clusters 6 (sortArrivals [arrivalAt 3 1.002, arrivalAt 0 1.02, arrivalAt 1 1.0002,
        arrivalAt 0 1, arrivalAt 2 1.0207, arrivalAt 2 1.0007])) heardTwice := by
  obtain ⟨-, -, -, -, -, h, -⟩ := clusters_are_transmissions [arrivalAt 3 1.002,
    arrivalAt 0 1.02, arrivalAt 1 1.0002, arrivalAt 0 1, arrivalAt 2 1.0207, arrivalAt 2 1.0007]
  have horder : [3, 4, 1, 0, 5, 2].Perm (List.range 6) := by decide
  exact h heardTwice heardTwice_transmissions
    (horder.map fun i => heardTwice.flatten.getD i (arrivalAt 0 0))

end Mlatd
