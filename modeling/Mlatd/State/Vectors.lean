/-
  The vectors of `solve_cluster` (state.rs): `obs`, `users` and `rx_ids` as the source keeps them,
  side by side, through the skip conditions and the cap.

  `selectObs` and `capUsed` keep one list of records instead. The vectors are its projections
  (`vectors_of_selectObs`, `cap_of_capUsed`), so whatever is at one place of each belongs to one
  receiver.
-/
import Mathlib.Data.List.GetD
import Mlatd.Lib.Exact
import Mlatd.Lib.Selection
import Mlatd.State.Cluster

namespace Mlatd

variable {F : Type} [F64 F]

/-! ## The vectors -/

structure Vectors (F : Type) where
  seen : List ℕ
  obs : List (Observation F)
  users : List String
  rxIds : List ℕ
  benched : List (ℕ × F)
  /-- `none` is the infinity it starts from. -/
  stamp : Option F

namespace State

/-- An arrival as the solve observes it, the bias learnt of its receiver applied. -/
def observe (s : State F) (a : Arrival F) : Observation F :=
  { rx := (s.receiver a.rx).ecef, tS := a.t + (s.bias a.rx).biasS, errS := a.sigma }

def vectorsOne (s : State F) (v : Vectors F) (a : Arrival F) : Vectors F :=
  if v.seen.contains a.rx then v
  else
    let v := { v with seen := a.rx :: v.seen }
    if s.isAlive a.rx = false then v
    else if (s.bias a.rx).quarantined then { v with benched := v.benched ++ [(a.rx, a.t)] }
    else
      { v with
        obs := v.obs ++ [s.observe a]
        users := v.users ++ [(s.receiver a.rx).user]
        rxIds := v.rxIds ++ [a.rx]
        stamp := some (match v.stamp with
          | none => a.atScaled
          | some m => F64.min m a.atScaled) }

/-- The vectors after the loop over a cluster. -/
def vectors (s : State F) (cluster : List (Arrival F)) : Vectors F :=
  cluster.foldl s.vectorsOne
    { seen := [], obs := [], users := [], rxIds := [], benched := [], stamp := none }

end State

namespace Vectors

/-- Above `maxSolve` the most precise are kept: the places are sorted by `err_s`, truncated, sorted
    back, and each vector read at them. -/
def cap (v : Vectors F) : Vectors F :=
  if maxSolve < v.obs.length then
    let idx := (List.range v.obs.length).insertionSort fun a b =>
      F64.totalLe (v.obs.getD a default).errS (v.obs.getD b default).errS = true
    let idx := (idx.take maxSolve).insertionSort (· ≤ ·)
    { v with
      obs := idx.map fun i => v.obs.getD i default
      users := idx.map fun i => v.users.getD i ""
      rxIds := idx.map fun i => v.rxIds.getD i 0 }
  else v

/-- The vectors that a list of records stands for. -/
def ofSelected (sel : Selected F) : Vectors F where
  seen := sel.seen
  obs := sel.used.map Used.obs
  users := sel.used.map Used.user
  rxIds := sel.used.map Used.rx
  benched := sel.benched
  stamp := F64.foldMin (sel.used.map Used.atScaled)

end Vectors

theorem vectorsOne_ofSelected (s : State F) (sel : Selected F) (a : Arrival F) :
    s.vectorsOne (Vectors.ofSelected sel) a = Vectors.ofSelected (s.selectOne sel a) := by
  unfold State.vectorsOne State.selectOne
  show (if sel.seen.contains a.rx then _ else _) = _
  split
  · rfl
  · simp only
    split
    · rfl
    · split
      · rfl
      · simp only [Vectors.ofSelected, List.map_append, F64.foldMin, List.foldl_append]
        rfl

theorem vectors_of_selectObs (s : State F) (cluster : List (Arrival F)) :
    s.vectors cluster = Vectors.ofSelected (s.selectObs cluster) := by
  let start : Selected F := { seen := [], used := [], benched := [] }
  have h : cluster.foldl s.vectorsOne (Vectors.ofSelected start) =
      Vectors.ofSelected (cluster.foldl s.selectOne start) :=
    List.foldl_hom Vectors.ofSelected (vectorsOne_ofSelected s)
  exact h

/-! ## What is selected -/

namespace State

/-- A live receiver that is not quarantined is solved with. -/
def solves (s : State F) (a : Arrival F) : Bool := s.isAlive a.rx && !(s.bias a.rx).quarantined

/-- A live one that is quarantined is scored only. -/
def benches (s : State F) (a : Arrival F) : Bool := s.isAlive a.rx && (s.bias a.rx).quarantined

/-- The record of an arrival. -/
def record (s : State F) (a : Arrival F) : Used F :=
  { rx := a.rx, user := (s.receiver a.rx).user, obs := s.observe a, atScaled := a.atScaled }

theorem foldl_selectOne (s : State F) (cluster : List (Arrival F)) (sel : Selected F) :
    (cluster.foldl s.selectOne sel).used =
        sel.used ++ ((List.firstsBy Arrival.rx sel.seen cluster).filter s.solves).map s.record ∧
      (cluster.foldl s.selectOne sel).benched =
        sel.benched ++ ((List.firstsBy Arrival.rx sel.seen cluster).filter s.benches).map
          fun a => (a.rx, a.t) := by
  induction cluster generalizing sel with
  | nil => simp [List.firstsBy]
  | cons a as ih =>
    rw [List.foldl_cons]
    obtain ⟨hused, hbenched⟩ := ih (s.selectOne sel a)
    rw [hused, hbenched, List.firstsBy]
    unfold selectOne
    split
    · exact ⟨rfl, rfl⟩
    · next hnew =>
      cases halive : s.isAlive a.rx with
      | false => simp [solves, benches, halive]
      | true =>
        cases hq : (s.bias a.rx).quarantined with
        | false => simp [solves, benches, halive, hq, record, observe]
        | true => simp [solves, benches, halive, hq]

end State

namespace Vectors

/-- The places that the cap keeps. -/
def places (v : Vectors F) : List ℕ :=
  List.leastPlaces (fun a b =>
    F64.totalLe (v.obs.getD a default).errS (v.obs.getD b default).errS = true) v.obs.length maxSolve

theorem cap_of_le {v : Vectors F} (h : v.obs.length ≤ maxSolve) : v.cap = v := if_neg (by omega)

theorem cap_of_lt {v : Vectors F} (h : maxSolve < v.obs.length) : v.cap =
    { v with
      obs := v.places.map fun i => v.obs.getD i default
      users := v.places.map fun i => v.users.getD i ""
      rxIds := v.places.map fun i => v.rxIds.getD i 0 } := if_pos h

theorem map_capUsed {β : Type} (f : Used F → β) (sel : Selected F)
    (h : maxSolve < (ofSelected sel).obs.length) : (capUsed sel.used).map f =
      (ofSelected sel).places.map fun i => (sel.used.map f).getD i (f default) := by
  have hlen : (ofSelected sel).obs.length = sel.used.length := List.length_map _
  have herr (i : ℕ) : ((ofSelected sel).obs.getD i default).errS =
      (sel.used.getD i default).obs.errS := by
    have hget : (sel.used.map Used.obs).getD i (default : Used F).obs =
        (sel.used.getD i default).obs := List.getD_map _ _ _
    exact congrArg Observation.errS hget
  rw [hlen] at h
  unfold capUsed places
  simp only [if_pos h, herr, hlen, List.map_map, List.getD_map]
  rfl

/-- The cap keeps the same receivers in each vector. -/
theorem cap_ofSelected (sel : Selected F) :
    (ofSelected sel).cap.obs = (capUsed sel.used).map Used.obs ∧
      (ofSelected sel).cap.users = (capUsed sel.used).map Used.user ∧
      (ofSelected sel).cap.rxIds = (capUsed sel.used).map Used.rx := by
  by_cases h : maxSolve < (ofSelected sel).obs.length
  · rw [cap_of_lt h, map_capUsed _ _ h, map_capUsed _ _ h, map_capUsed _ _ h]
    exact ⟨rfl, rfl, rfl⟩
  · have hlen : (ofSelected sel).obs.length = sel.used.length := List.length_map _
    have hcap : capUsed sel.used = sel.used := if_neg (hlen ▸ h)
    rw [cap_of_le (not_lt.1 h), hcap]
    exact ⟨rfl, rfl, rfl⟩

end Vectors

/-! ## What the vectors hold -/

/-- `a` is the earliest arrival of its receiver in the cluster. -/
def Earliest (cluster : List (Arrival F)) (a : Arrival F) : Prop :=
  a ∈ cluster ∧ ∀ b ∈ cluster, b.rx = a.rx → F64.totalLe a.t b.t = true

/-- The vectors are as long as each other, and what they hold at one place belongs to one
    receiver: its name and its earliest arrival. -/
structure Aligns (s : State F) (cluster : List (Arrival F)) (v : Vectors F) : Prop where
  users : v.users.length = v.obs.length
  rxIds : v.rxIds.length = v.obs.length
  nodup : v.rxIds.Nodup
  own : ∀ i rx : ℕ, v.rxIds[i]? = some rx → v.users[i]? = some (s.receiver rx).user ∧
    ∃ a, a.rx = rx ∧ Earliest cluster a ∧ v.obs[i]? = some (s.observe a)

/-- One observation for each live receiver of the cluster that is not quarantined; the quarantined
    ones are put by with their arrival. -/
structure Selects (s : State F) (cluster : List (Arrival F)) (v : Vectors F) : Prop where
  aligned : Aligns s cluster v
  mem_iff : ∀ rx, rx ∈ v.rxIds ↔ (∃ a ∈ cluster, a.rx = rx) ∧ s.isAlive rx = true ∧
    (s.bias rx).quarantined = false
  benched_nodup : (v.benched.map Prod.fst).Nodup
  benched : ∀ rx t, (rx, t) ∈ v.benched → s.isAlive rx = true ∧ (s.bias rx).quarantined = true ∧
    ∃ a, a.rx = rx ∧ a.t = t ∧ Earliest cluster a

/-- The cap: at most 16 observations, in their order, none of those left out with a smaller error
    than one that is kept. -/
structure Caps (v w : Vectors F) : Prop where
  whole : v.obs.length ≤ 16 → w = v
  kept : 16 < v.obs.length → ∃ idx : List ℕ, idx.length = 16 ∧ idx.Pairwise (· < ·) ∧
    (∀ i ∈ idx, i < v.obs.length) ∧ w.obs = idx.map (fun i => v.obs.getD i default) ∧
    w.users = idx.map (fun i => v.users.getD i "") ∧ w.rxIds = idx.map (fun i => v.rxIds.getD i 0) ∧
    ∀ i ∈ idx, ∀ j < v.obs.length, j ∉ idx →
      F64.totalLe (v.obs.getD i default).errS (v.obs.getD j default).errS = true

section
variable [F64.TotalCmp F]

theorem caps_cap (v : Vectors F) : Caps v v.cap where
  whole h := Vectors.cap_of_le h
  kept h := by
    have htotal := F64.TotalCmp.total_on fun i => (v.obs.getD i default).errS
    have htrans := F64.TotalCmp.trans_on fun i => (v.obs.getD i default).errS
    have hlen : v.places.length = 16 := by
      rw [Vectors.places, List.length_leastPlaces, maxSolve]
      omega
    rw [Vectors.cap_of_lt h]
    refine ⟨v.places, hlen, List.pairwise_leastPlaces _ _, ?_, rfl, rfl, rfl, ?_⟩
    · intro i hi
      exact List.lt_of_mem_leastPlaces hi
    · intro i hi j hj hout
      exact List.le_of_mem_leastPlaces hi hj hout

/-- The first arrival of a receiver in a sorted cluster is its earliest. -/
theorem earliest_of_mem_firstsBy {cluster : List (Arrival F)}
    (hsorted : cluster.Pairwise fun a b => F64.totalLe a.t b.t = true) {a : Arrival F}
    (ha : a ∈ List.firstsBy Arrival.rx [] cluster) : Earliest cluster a := by
  refine ⟨(List.firstsBy_sublist _ _).subset ha, fun b hb hrx => ?_⟩
  rcases List.rel_of_mem_firstsBy hsorted ha hb hrx with rfl | h
  · exact (F64.TotalCmp.total b.t b.t).elim id id
  · exact h

end

theorem selectObs_used (s : State F) (cluster : List (Arrival F)) : (s.selectObs cluster).used =
    ((List.firstsBy Arrival.rx [] cluster).filter s.solves).map s.record :=
  (s.foldl_selectOne cluster _).1

theorem selectObs_benched (s : State F) (cluster : List (Arrival F)) :
    (s.selectObs cluster).benched =
      ((List.firstsBy Arrival.rx [] cluster).filter s.benches).map fun a => (a.rx, a.t) :=
  (s.foldl_selectOne cluster _).2

theorem capUsed_sublist (used : List (Used F)) : (capUsed used).Sublist used := by
  unfold capUsed
  split
  · exact List.map_getD_sublist used default (fun i hi => List.lt_of_mem_leastPlaces hi)
      (List.pairwise_leastPlaces _ _)
  · exact List.Sublist.refl _

section
variable (s : State F) (cluster : List (Arrival F))

theorem nodup_selectObs_rx : ((s.selectObs cluster).used.map Used.rx).Nodup := by
  rw [selectObs_used, List.map_map]
  exact (List.nodup_map_firstsBy [] cluster).sublist (List.filter_sublist.map Arrival.rx)

theorem mem_selectObs_rx_iff (rx : ℕ) : rx ∈ (s.selectObs cluster).used.map Used.rx ↔
    (∃ a ∈ cluster, a.rx = rx) ∧ s.isAlive rx = true ∧ (s.bias rx).quarantined = false := by
  rw [selectObs_used, List.map_map, List.mem_map]
  constructor
  · rintro ⟨a, ha, rfl⟩
    obtain ⟨hfirst, hsolve⟩ := List.mem_filter.1 ha
    rw [State.solves, Bool.and_eq_true, Bool.not_eq_true'] at hsolve
    exact ⟨⟨a, (List.firstsBy_sublist _ _).subset hfirst, rfl⟩, hsolve⟩
  · rintro ⟨⟨b, hb, rfl⟩, halive, hclear⟩
    have hnew : b.rx ∉ ([] : List ℕ) := List.not_mem_nil
    obtain ⟨a, ha, hrx⟩ := List.exists_mem_firstsBy hb hnew
    refine ⟨a, List.mem_filter.2 ⟨ha, ?_⟩, hrx⟩
    rw [State.solves, hrx, halive, hclear]
    rfl

theorem nodup_selectObs_benched : ((s.selectObs cluster).benched.map Prod.fst).Nodup := by
  rw [selectObs_benched, List.map_map]
  exact (List.nodup_map_firstsBy [] cluster).sublist (List.filter_sublist.map Arrival.rx)

theorem of_mem_selectObs_benched {rx : ℕ} {t : F} (h : (rx, t) ∈ (s.selectObs cluster).benched) :
    s.isAlive rx = true ∧ (s.bias rx).quarantined = true ∧
      ∃ a ∈ List.firstsBy Arrival.rx [] cluster, a.rx = rx ∧ a.t = t := by
  rw [selectObs_benched] at h
  obtain ⟨a, ha, heq⟩ := List.mem_map.1 h
  obtain ⟨hfirst, hbench⟩ := List.mem_filter.1 ha
  cases heq
  rw [State.benches, Bool.and_eq_true] at hbench
  exact ⟨hbench.1, hbench.2, a, hfirst, rfl, rfl⟩

end

/-- Records of earliest arrivals, one for each receiver, as vectors. -/
theorem aligns_of_records {s : State F} {cluster : List (Arrival F)} {v : Vectors F}
    {used : List (Used F)} (hobs : v.obs = used.map Used.obs) (husers : v.users = used.map Used.user)
    (hrxIds : v.rxIds = used.map Used.rx) (hnodup : (used.map Used.rx).Nodup)
    (hused : ∀ u ∈ used, ∃ a, Earliest cluster a ∧ u = s.record a) : Aligns s cluster v where
  users := by rw [husers, hobs, List.length_map, List.length_map]
  rxIds := by rw [hrxIds, hobs, List.length_map, List.length_map]
  nodup := hrxIds ▸ hnodup
  own i rx h := by
    rw [hrxIds, List.getElem?_map, Option.map_eq_some_iff] at h
    obtain ⟨u, hu, rfl⟩ := h
    obtain ⟨a, ha, rfl⟩ := hused u (List.mem_of_getElem? hu)
    rw [husers, hobs, List.getElem?_map, List.getElem?_map, hu]
    exact ⟨rfl, a, rfl, ha, rfl⟩

section
variable [F64.TotalCmp F] (s : State F) {cluster : List (Arrival F)}
  (hsorted : cluster.Pairwise fun a b => F64.totalLe a.t b.t = true)
include hsorted

theorem record_of_mem_selectObs {u : Used F} (hu : u ∈ (s.selectObs cluster).used) :
    ∃ a, Earliest cluster a ∧ u = s.record a := by
  rw [selectObs_used] at hu
  obtain ⟨a, ha, rfl⟩ := List.mem_map.1 hu
  exact ⟨a, earliest_of_mem_firstsBy hsorted (List.mem_of_mem_filter ha), rfl⟩

/-- The vectors before the cap. -/
theorem selects_vectors : Selects s cluster (s.vectors cluster) where
  aligned := by
    rw [vectors_of_selectObs]
    exact aligns_of_records rfl rfl rfl (nodup_selectObs_rx s cluster) fun u hu =>
      record_of_mem_selectObs s hsorted hu
  mem_iff rx := by
    rw [vectors_of_selectObs]
    exact mem_selectObs_rx_iff s cluster rx
  benched_nodup := by
    rw [vectors_of_selectObs]
    exact nodup_selectObs_benched s cluster
  benched rx t h := by
    rw [vectors_of_selectObs] at h
    obtain ⟨halive, hbenched, a, ha, hrx, ht⟩ := of_mem_selectObs_benched s cluster h
    exact ⟨halive, hbenched, a, hrx, ht, earliest_of_mem_firstsBy hsorted ha⟩

/-- The vectors after it. -/
theorem aligns_cap : Aligns s cluster (s.vectors cluster).cap := by
  rw [vectors_of_selectObs]
  obtain ⟨hobs, husers, hrxIds⟩ := Vectors.cap_ofSelected (s.selectObs cluster)
  have hsub := capUsed_sublist (s.selectObs cluster).used
  refine aligns_of_records hobs husers hrxIds
    ((nodup_selectObs_rx s cluster).sublist (hsub.map Used.rx)) ?_
  intro u hu
  exact record_of_mem_selectObs s hsorted (hsub.subset hu)

end

end Mlatd
