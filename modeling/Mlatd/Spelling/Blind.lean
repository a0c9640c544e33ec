/-
  What does not look at the texts of messages (state.rs).

  Sync points and groups are kept under the hexadecimal texts of their messages. Everything else a
  shard does is blind to the two maps: with others in their place (`rekeyed`) it does the same and
  leaves them alone.
-/
import Mlatd.Tracks.Attempt

namespace Mlatd

variable {F : Type} [F64 F]

namespace State

/-- The state with other sync points and groups. -/
def rekeyed (s : State F) (sps : HashMap (String × String) (SyncPoint F))
    (gs : HashMap String (Group F)) : State F :=
  { s with syncpoints := sps, groups := gs }

section
variable (s : State F) (sps : HashMap (String × String) (SyncPoint F))
  (gs : HashMap String (Group F))

omit [F64 F] in
theorem foldl_rekeyed {α : Type} {f : State F → α → State F}
    (hf : ∀ s a, f (s.rekeyed sps gs) a = (f s a).rekeyed sps gs) (as : List α) :
    as.foldl f (s.rekeyed sps gs) = (as.foldl f s).rekeyed sps gs := by
  induction as generalizing s with
  | nil => rfl
  | cons a as ih => rw [List.foldl_cons, List.foldl_cons, hf, ih]

/-! ## Messages -/

theorem trainPair_rekeyed (icao : Icao) (rx : ℕ) (te to' : F) (other : ℕ × F × F) :
    trainPair icao rx te to' (s.rekeyed sps gs) other =
      (trainPair icao rx te to' s other).rekeyed sps gs := by
  have h : (s.rekeyed sps gs).isAlive other.1 = s.isAlive other.1 := rfl
  unfold trainPair
  simp only
  rw [h]
  split
  · rfl
  · rfl

theorem takeSlot_rekeyed (info : ReceiverInfo F) :
    (s.rekeyed sps gs).takeSlot info =
      ((s.takeSlot info).1.rekeyed sps gs, (s.takeSlot info).2) := by
  have h : (s.rekeyed sps gs).freeSlots = s.freeSlots := rfl
  unfold takeSlot
  rw [h]
  cases s.freeSlots.getLast? with
  | none => rfl
  | some i => rfl

theorem issue_rekeyed (info : ReceiverInfo F) :
    (s.rekeyed sps gs).issue info = ((s.issue info).1.rekeyed sps gs, (s.issue info).2) := by
  unfold issue
  rw [takeSlot_rekeyed]
  rfl

theorem receiverStats_rekeyed (r : RxRef) :
    ((s.rekeyed sps gs).receiverStats r).1 = (s.receiverStats r).1.rekeyed sps gs := by
  have h : (s.rekeyed sps gs).live r = s.live r := rfl
  unfold receiverStats
  rw [h]
  cases s.live r with
  | false => rfl
  | true => rfl

theorem expireIfDue_rekeyed (now : Instant) :
    (s.rekeyed sps gs).expireIfDue now = (s.expireIfDue now).rekeyed sps gs := by
  have h : (s.rekeyed sps gs).lastExpire = s.lastExpire := rfl
  unfold expireIfDue
  rw [h]
  split
  · rfl
  · rfl

/-! ## Solving -/

theorem trainAllBenched_rekeyed (a : Attempt F) (sol : Solution F) :
    (s.rekeyed sps gs).trainAllBenched a sol = (s.trainAllBenched a sol).rekeyed sps gs := by
  unfold trainAllBenched
  split
  · exact foldl_rekeyed s sps gs (fun _ _ => rfl) a.benched
  · rfl

theorem learnBias_rekeyed (a : Attempt F) (sol : Solution F) (withMad : Bool) :
    (s.rekeyed sps gs).learnBias a sol withMad = (s.learnBias a sol withMad).rekeyed sps gs := by
  unfold learnBias
  split
  · exact foldl_rekeyed s sps gs (fun _ _ => rfl) _
  · rfl

theorem noteSpeedReject_rekeyed (icao : Icao) :
    (s.rekeyed sps gs).noteSpeedReject icao = (s.noteSpeedReject icao).rekeyed sps gs := by
  have h : (s.rekeyed sps gs).tracks = s.tracks := rfl
  unfold noteSpeedReject
  simp only
  rw [h]
  split
  · rfl
  · rfl

theorem selfTruth_rekeyed (a : Attempt F) (sol : Solution F) :
    (s.rekeyed sps gs).selfTruth a sol =
      ((s.selfTruth a sol).1.rekeyed sps gs, (s.selfTruth a sol).2) := by
  have h : ((s.learnBias a sol false).rekeyed sps gs).adsbPos =
    (s.learnBias a sol false).adsbPos := rfl
  unfold selfTruth
  simp only
  rw [learnBias_rekeyed, h]
  split
  · rfl
  · cases (s.learnBias a sol false).adsbPos.lookup a.icao with
    | none => rfl
    | some claim =>
      simp only
      split
      · rfl
      · rfl

theorem smooth_rekeyed (a : Attempt F) (sol : Solution F) :
    (s.rekeyed sps gs).smooth a sol =
      ((s.smooth a sol).1.rekeyed sps gs, (s.smooth a sol).2) := by
  have h1 : (s.rekeyed sps gs).emitFiltered = s.emitFiltered := rfl
  have h2 : (s.rekeyed sps gs).filters = s.filters := rfl
  unfold smooth
  rw [h1, h2]
  split
  · rfl
  · cases s.filters.lookup a.icao with
    | none => rfl
    | some f => rfl

theorem publish_rekeyed (a : Attempt F) (sol : Solution F) :
    (s.rekeyed sps gs).publish a sol =
      ((s.publish a sol).1.rekeyed sps gs, (s.publish a sol).2) := by
  have h1 : ({ s.rekeyed sps gs with statsSolved := (s.rekeyed sps gs).statsSolved + 1 } :
      State F) = State.rekeyed { s with statsSolved := s.statsSolved + 1 } sps gs := rfl
  have h2 (s : State F) : (s.rekeyed sps gs).noteFix a sol = (s.noteFix a sol).rekeyed sps gs := rfl
  unfold publish
  simp only
  rw [h1, learnBias_rekeyed, h2, smooth_rekeyed]
  rfl

theorem conclude_rekeyed (a : Attempt F) (sol : Option (Solution F)) :
    (s.rekeyed sps gs).conclude a sol =
      ((s.conclude a sol).1.rekeyed sps gs, (s.conclude a sol).2) := by
  cases sol with
  | none => rfl
  | some sol =>
    unfold conclude
    simp only
    cases judge a sol with
    | some refusal =>
      cases refusal with
      | uncertain | throttled | offTrack => rfl
      | tooFast =>
        simp only
        rw [noteSpeedReject_rekeyed]
        rfl
    | none =>
      simp only
      rw [trainAllBenched_rekeyed]
      split
      · exact selfTruth_rekeyed _ sps gs a sol
      · exact publish_rekeyed _ sps gs a sol

theorem attempt_rekeyed (env : Env F) (now : Instant) (g : Group F) (stamp : F)
    (sel : Selected F) : (s.rekeyed sps gs).attempt env now g stamp sel =
      ((s.attempt env now g stamp sel).1.rekeyed sps gs,
        (s.attempt env now g stamp sel).2) := by
  have h : (s.rekeyed sps gs).attemptAt now g stamp sel = s.attemptAt now g stamp sel := rfl
  rw [attempt_eq, attempt_eq, h]
  cases (s.attemptAt now g stamp sel).filter fun a => !a.tooSoon with
  | none => rfl
  | some a => exact conclude_rekeyed ((s.entered g.icao).noteAttempt a) sps gs a _

theorem solveCluster_rekeyed (env : Env F) (now : Instant) (g : Group F) (localRef : ℕ)
    (cluster : List (Arrival F)) : (s.rekeyed sps gs).solveCluster env now g localRef cluster =
      ((s.solveCluster env now g localRef cluster).1.rekeyed sps gs,
        (s.solveCluster env now g localRef cluster).2) := by
  have h : (s.rekeyed sps gs).selectObs cluster = s.selectObs cluster := rfl
  unfold solveCluster
  simp only
  rw [h]
  split
  · rfl
  · exact attempt_rekeyed (s.stampCluster localRef (s.selectObs cluster).used).1 sps gs env now g
      _ _

theorem solveClusters_rekeyed (env : Env F) (clk : ℕ → Instant) (g : Group F) (localRef k : ℕ)
    (cs : List (List (Arrival F))) : (s.rekeyed sps gs).solveClusters env clk g localRef k cs =
      ((s.solveClusters env clk g localRef k cs).1.rekeyed sps gs,
        (s.solveClusters env clk g localRef k cs).2) := by
  induction cs generalizing s k with
  | nil => rfl
  | cons c cs ih =>
    unfold solveClusters
    simp only
    rw [solveCluster_rekeyed, ih]

theorem solveGroup_rekeyed (env : Env F) (clk : ℕ → Instant) (g : Group F) :
    (s.rekeyed sps gs).solveGroup env clk g =
      ((s.solveGroup env clk g).1.rekeyed sps gs, (s.solveGroup env clk g).2) := by
  have h1 : (s.rekeyed sps gs).conv g = s.conv g := rfl
  have h2 : (s.rekeyed sps gs).electRef g.members = s.electRef g.members := rfl
  unfold solveGroup
  simp only
  rw [h1, h2]
  split
  · rfl
  · split
    · rfl
    · exact solveClusters_rekeyed s sps gs env clk g _ 0 _

end

end State

end Mlatd
