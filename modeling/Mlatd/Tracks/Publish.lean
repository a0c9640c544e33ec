/-
  The fix that a turn publishes, and the row it leaves as (state.rs, solve_cluster).

  `Turn.published` is the attempt and the solution of a turn that publishes: an attempt was made,
  the solver found a position, no gate refused it, and its group is not of DF17 frames. Such a
  turn emits the row of that fix, and no other turn emits a fix (`out_of_published`,
  `out_of_not_published`).
-/
import Mlatd.Tracks.Attempt

namespace Mlatd

variable {F : Type} [F64 F]

/-- A solution that stands and is not of DF17 frames. -/
def Attempt.publishes (a : Attempt F) (sol : Solution F) : Bool :=
  (State.judge a sol).isNone && !a.isDf17

namespace Turn

/-- The attempt and the solution of a turn that publishes a fix. -/
def published (env : Env F) (s : State F) : Turn F → Option (Attempt F × Solution F)
  | .solve now g localRef cluster =>
    (s.attempted env now g localRef cluster).bind fun p =>
      (p.2.filter p.1.publishes).map fun sol => (p.1, sol)
  | _ => none

/-- What a published fix came from. -/
theorem published_eq_some {env : Env F} {s : State F} {t : Turn F} {a : Attempt F}
    {sol : Solution F} (h : t.published env s = some (a, sol)) :
    ∃ now g localRef cluster, t = .solve now g localRef cluster ∧
      s.attempted env now g localRef cluster = some (a, some sol) ∧
      State.judge a sol = none ∧ a.isDf17 = false := by
  cases t with
  | msg now heard m => cases h
  | expire now => cases h
  | take key => cases h
  | solve now g localRef cluster =>
    obtain ⟨⟨a', osol⟩, ha, h1⟩ := Option.bind_eq_some_iff.1 h
    obtain ⟨sol', h2, h3⟩ := Option.map_eq_some_iff.1 h1
    cases h3
    obtain ⟨h4, h5⟩ := Option.filter_eq_some_iff.1 h2
    unfold Attempt.publishes at h5
    rw [Bool.and_eq_true, Option.isNone_iff_eq_none, Bool.not_eq_true'] at h5
    simp only at h4
    rw [h4] at ha
    exact ⟨now, g, localRef, cluster, rfl, ha, h5.1, h5.2⟩

/-- An attempt whose solution publishes is the turn's fix. -/
theorem published_of_attempted {env : Env F} {s : State F} {now : Instant} {g : Group F}
    {localRef : ℕ} {cluster : List (Arrival F)} {a : Attempt F} {sol : Solution F}
    (h : s.attempted env now g localRef cluster = some (a, some sol))
    (hj : State.judge a sol = none) (hd : a.isDf17 = false) :
    (Turn.solve now g localRef cluster).published env s = some (a, sol) := by
  have hp : a.publishes sol = true := by
    unfold Attempt.publishes
    rw [hj, hd]
    rfl
  unfold published
  simp only
  rw [h, Option.bind_some, Option.filter_some, if_pos hp]
  rfl

/-- A turn that publishes emits the row of its fix, and nothing else. -/
theorem out_of_published {env : Env F} {s : State F} {t : Turn F} {a : Attempt F}
    {sol : Solution F} (h : t.published env s = some (a, sol)) :
    ∃ smoothed, t.out env s = [.fix ((t.step env s).row a sol smoothed)] := by
  obtain ⟨now, g, localRef, cluster, rfl, ha, hj, hd⟩ := published_eq_some h
  rcases State.solveCluster_cases env s now g localRef cluster with
    ⟨hnone, -⟩ | ⟨a', sol', offsets, ha', hs⟩
  · rw [hnone] at ha
    cases ha
  · rw [ha] at ha'
    cases ha'
    unfold out step
    simp only
    rw [hs]
    rcases State.conclude_cases
        ((State.entered { s with stampOffset := offsets } g.icao).noteAttempt a) a (some sol) with
      ⟨-, h1, -, -⟩ | ⟨r, h1, h2, -⟩ | ⟨r, t, h1, -, -, -, h2⟩
    · exact absurd ((h1 sol rfl hj).symm.trans hd) (by decide)
    · cases h1
      rw [hj] at h2
      cases h2
    · cases h1
      rw [h2]
      exact ⟨_, rfl⟩

/-- A turn that publishes nothing emits no fix. -/
theorem out_of_not_published {env : Env F} {s : State F} {t : Turn F}
    (h : t.published env s = none) (row : OutRow F) : .fix row ∉ t.out env s := by
  cases t with
  | msg now heard m => exact List.not_mem_nil
  | expire now => exact List.not_mem_nil
  | take key => exact List.not_mem_nil
  | solve now g localRef cluster =>
    unfold out
    simp only
    rcases State.solveCluster_cases env s now g localRef cluster with
      ⟨-, ⟨-, hs⟩ | ⟨-, offsets, hs⟩⟩ | ⟨a, sol, offsets, ha, hs⟩
    · rw [hs]
      exact List.not_mem_nil
    · rw [hs]
      exact List.not_mem_nil
    · rw [hs]
      rcases State.conclude_cases
          ((State.entered { s with stampOffset := offsets } g.icao).noteAttempt a) a sol with
        ⟨-, -, -, h1⟩ | ⟨r, -, -, h1⟩ | ⟨r, t, rfl, hj, hd, -, -⟩
      · exact h1 row
      · rw [h1]
        exact List.not_mem_nil
      · rw [published_of_attempted ha hj hd] at h
        cases h

/-- An emitted fix is the one its turn publishes. -/
theorem published_of_mem_out {env : Env F} {s : State F} {t : Turn F} {row : OutRow F}
    (h : .fix row ∈ t.out env s) :
    ∃ a sol smoothed, t.published env s = some (a, sol) ∧
      row = (t.step env s).row a sol smoothed := by
  cases hp : t.published env s with
  | none => exact absurd h (out_of_not_published hp row)
  | some p =>
    obtain ⟨a, sol⟩ := p
    obtain ⟨smoothed, ho⟩ := out_of_published hp
    rw [ho, List.mem_singleton] at h
    cases h
    exact ⟨a, sol, smoothed, rfl, rfl⟩

end Turn

end Mlatd
