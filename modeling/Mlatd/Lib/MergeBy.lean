/-
  Maps merged entry by entry: of two entries under one key the better stays, the first of equals.

  `lookup_foldl_mergeBy`: of any number of maps the merged one holds, under each key, the first
  entry of least measure.
-/
import Mathlib.Data.List.MinMax
import Mlatd.Lib.Finmap

namespace Finmap

variable {K V β : Type} [DecidableEq K] [LinearOrder β]

/-- The entries of both maps; where both have one, that of `m'` if it is better than that of
    `m`. -/
def mergeBy (better : V → V → Bool) (m m' : HashMap K V) : HashMap K V :=
  (m.mapVals fun k v => ((m'.lookup k).filter fun w => better w v).getD v) ∪ m'

theorem lookup_mergeBy (better : V → V → Bool) (m m' : HashMap K V) (k : K) :
    (m.mergeBy better m').lookup k =
      ((m.lookup k).map fun v => ((m'.lookup k).filter fun w => better w v).getD v).or
        (m'.lookup k) := by
  unfold mergeBy
  rw [lookup_union_eq, lookup_mapVals]

theorem lookup_foldl_mergeBy {better : V → V → Bool} {f : V → β}
    (h : ∀ w v, better w v = decide (f w < f v)) (ms : List (HashMap K V)) (k : K) :
    (ms.foldl (mergeBy better) ∅).lookup k = (ms.filterMap fun m => m.lookup k).argmin f := by
  induction ms using List.reverseRecOn with
  | nil => exact lookup_empty k
  | append_singleton ms m ih =>
    rw [List.foldl_append, List.foldl_cons, List.foldl_nil, lookup_mergeBy, ih,
      List.filterMap_append]
    cases hm : m.lookup k with
    | none =>
      rw [List.filterMap_cons_none hm, List.filterMap_nil, List.append_nil, Option.or_none]
      exact Option.map_id'
    | some w =>
      rw [List.filterMap_cons_some hm, List.filterMap_nil, List.argmin_concat]
      cases (ms.filterMap fun m => m.lookup k).argmin f with
      | none => rfl
      | some v =>
        simp only [Option.map_some, Option.some_or, h]
        by_cases hlt : f w < f v
        · simp [Option.filter, hlt]
        · simp [Option.filter, hlt]

end Finmap
