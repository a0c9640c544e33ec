/-
  The discipline of publication, over whole runs in exact arithmetic.

  A gate judges a solution against the copy of the track its attempt was made with. `Since` is
  what the memory of an aircraft keeps from a fix on, whatever comes in between that is neither
  another fix of it nor its expiry: attempts only move the backoff on, and the last fix stays the
  one judged against until the fifth refusal for speed. Hence the spacing of consecutive fixes
  (`Disciplined.spaced`); the accuracy and the stamp of a fix are properties of its own turn.
-/
import Mlatd.Tracks.Agree
import Mlatd.Tracks.Publish
import Mlatd.Tracks.Residuals

namespace Mlatd

/-! ## The stamp -/

theorem foldMin_concat (xs : List ℝ) (x : ℝ) :
    F64.foldMin (xs ++ [x]) = some ((F64.foldMin xs).elim x fun a => min a x) := by
  unfold F64.foldMin
  rw [List.foldl_append, List.foldl_cons, List.foldl_nil]
  split
  · next h => rw [h]; rfl
  · next a h => rw [h]; rfl

theorem foldMin_le {xs : List ℝ} {m : ℝ} (h : F64.foldMin xs = some m) : ∀ x ∈ xs, m ≤ x := by
  induction xs using List.reverseRecOn generalizing m with
  | nil => nofun
  | append_singleton xs y ih =>
    rw [foldMin_concat] at h
    obtain rfl := Option.some.inj h
    intro x hx
    cases hm : F64.foldMin xs with
    | none =>
      have hxs : xs = [] := by
        cases xs using List.reverseRecOn with
        | nil => rfl
        | append_singleton xs z =>
          rw [foldMin_concat] at hm
          cases hm
      rw [hxs, List.nil_append, List.mem_singleton] at hx
      exact hx.ge
    | some a =>
      rcases List.mem_append.1 hx with h1 | h1
      · exact (min_le_left a y).trans (ih hm x h1)
      · rw [List.mem_singleton.1 h1]
        exact min_le_right a y

/-- The offset follows the stamps from below. -/
theorem nextOffset_le (old : Option ℝ) (delta : ℝ) : nextOffset old delta ≤ delta := by
  cases old with
  | none => exact le_rfl
  | some o =>
    unfold nextOffset
    simp only
    split
    · exact le_rfl
    · next h =>
      have h : o ≤ delta := not_lt.1 h
      have h1 : o + (0.001 : ℝ) * (delta - o) ≤ delta := by
        norm_num
        linarith
      exact h1

/-- The stamp of a cluster is no later than any of its arrivals. -/
theorem stampCluster_le (s : State ℝ) (localRef : ℕ) {used : List (Used ℝ)} {u : Used ℝ}
    (hu : u ∈ used) : (s.stampCluster localRef used).2 ≤ u.atScaled := by
  have hne : F64.foldMin (used.map Used.atScaled) ≠ none := by
    cases used using List.reverseRecOn with
    | nil => cases hu
    | append_singleton used v =>
      rw [List.map_append, List.map_singleton, foldMin_concat]
      nofun
  obtain ⟨stamp, hstamp⟩ := Option.ne_none_iff_exists'.1 hne
  have hoff : ∀ t : ℝ, t + nextOffset (s.stampOffset.lookup localRef) (stamp - t) ≤ stamp := by
    intro t
    have h := nextOffset_le (s.stampOffset.lookup localRef) (stamp - t)
    linarith
  unfold State.stampCluster
  simp only [hstamp, Option.getD_some]
  exact (hoff _).trans (foldMin_le hstamp u.atScaled (List.mem_map_of_mem hu))

/-! ## The gates -/

/-- What a solution that stands has passed. -/
theorem judge_eq_none {a : Attempt ℝ} {sol : Solution ℝ} (h : State.judge a sol = none) :
    sol.errEstM ≤ maxErrM ∧ ∀ last, a.track.lastPos = some last →
      20 * sol.errEstM / throttleScaleM ≤ a.nowScaled - a.track.lastTimeScaled ∧
      (0.05 < a.nowScaled - a.track.lastTimeScaled → a.nowScaled - a.track.lastTimeScaled < 30 →
        sol.pos.haversineM last ≤ 400 * (a.nowScaled - a.track.lastTimeScaled)) := by
  unfold State.judge at h
  simp only at h
  split at h
  · cases h
  · next h1 =>
    refine ⟨not_lt.1 h1, ?_⟩
    intro last hlast
    rw [hlast] at h
    split at h
    · cases h
    · next h2 =>
      split at h
      · cases h
      · simp only at h
        split at h
        · cases h
        · next h3 =>
          have h2 : ¬ ((a.nowScaled - a.track.lastTimeScaled) / (20.0 : ℝ) <
              sol.errEstM / (throttleScaleM : ℝ)) := fun h4 => h2 ⟨rfl, h4⟩
          have h3 : ¬ (a.nowScaled - a.track.lastTimeScaled < (30.0 : ℝ) ∧
              (0.05 : ℝ) < a.nowScaled - a.track.lastTimeScaled ∧
              (400.0 : ℝ) < sol.pos.haversineM last / (a.nowScaled - a.track.lastTimeScaled)) := h3
          constructor
          · have h4 := not_lt.1 h2
            norm_num at h4
            rw [le_div_iff₀ (by norm_num)] at h4
            calc 20 * sol.errEstM / throttleScaleM = sol.errEstM / throttleScaleM * 20 := by ring
              _ ≤ _ := h4
          · intro hlong hshort
            by_contra hfast
            apply h3
            refine ⟨by norm_num; exact hshort, hlong, ?_⟩
            rw [lt_div_iff₀ (by linarith)]
            norm_num
            exact not_le.1 hfast

/-- An attempt in time keeps the backoff from the last ungated attempt. -/
theorem backoff_le {a : Attempt ℝ} (h : a.tooSoon = false) :
    resolveBackoffS ≤ a.nowScaled - a.track.lastAttemptScaled := by
  unfold Attempt.tooSoon at h
  simp only at h
  have h1 := not_lt.1 (of_decide_eq_false h)
  split at h1
  · have hmax : a.track.lastAttemptScaled ≤
        F64.max a.track.lastAttemptScaled a.track.lastGatedAttemptScaled := le_max_left _ _
    exact h1.trans (sub_le_sub_left hmax _)
  · exact h1

/-! ## From one fix to the next -/

namespace Memory

section
variable {F : Type}

def Act.isTooFast : Act F → Bool
  | .tooFast _ _ => true
  | _ => false

def Act.isPublish : Act F → Bool
  | .publish _ _ _ _ => true
  | _ => false

end

/-- What is left of a fix at `pos`, published at `time`, after `n` refusals for speed. -/
structure Since (pos : Geodetic ℝ) (time : ℝ) (n : ℕ) (m : Memory ℝ) : Prop where
  attempt : time ≤ m.entry.lastAttemptScaled
  last : n < 5 → m.entry.lastPos = some pos ∧ m.entry.lastTimeScaled = time ∧
    m.entry.speedRejects = n

namespace Since

variable {pos : Geodetic ℝ} {time : ℝ} {n : ℕ}

theorem publish (m : Memory ℝ) (gated : Bool) (now : ℝ) (pos : Geodetic ℝ) (errM : ℝ) :
    Since pos now 0 (m.step (.publish gated now pos errM)) :=
  ⟨le_rfl, fun _ => ⟨rfl, rfl, rfl⟩⟩

theorem le_stamped {t : Track ℝ} (h : time ≤ t.lastAttemptScaled) (gated : Bool) {now : ℝ}
    (hnow : time ≤ now) : time ≤ (stamped t gated now).lastAttemptScaled := by
  cases gated with
  | false => exact hnow
  | true => exact h

/-- Whatever is neither another fix nor expiry leaves the last fix in place, until the fifth
    refusal. -/
theorem step {m : Memory ℝ} (h : Since pos time n m) {act : Act ℝ} (hforget : act ≠ .forget)
    (hpublish : act.isPublish = false) (hclock : ∀ x, act.clock = some x → time ≤ x) :
    Since pos time (n + act.isTooFast.toNat) (m.step act) := by
  cases act with
  | idle => exact h
  | forget => exact absurd rfl hforget
  | enter => exact ⟨h.attempt, h.last⟩
  | attempt gated now =>
    refine ⟨le_stamped h.attempt gated (hclock now rfl), fun hn => ?_⟩
    obtain ⟨h1, h2, h3⟩ := h.last hn
    exact ⟨(stamped_lastPos _ _ _).trans h1, (stamped_lastTimeScaled _ _ _).trans h2,
      (stamped_speedRejects _ _ _).trans h3⟩
  | tooFast gated now =>
    have hattempt := le_stamped h.attempt gated (hclock now rfl)
    unfold Memory.step
    simp only
    split
    · next hmany =>
      refine ⟨hattempt, fun hn => ?_⟩
      have hn : n + 1 < 5 := hn
      rw [stamped_speedRejects, (h.last (by omega)).2.2] at hmany
      omega
    · refine ⟨hattempt, fun hn => ?_⟩
      have hn : n + 1 < 5 := hn
      obtain ⟨h1, h2, h3⟩ := h.last (by omega)
      exact ⟨(stamped_lastPos _ _ _).trans h1, (stamped_lastTimeScaled _ _ _).trans h2,
        congrArg (· + 1) ((stamped_speedRejects _ _ _).trans h3)⟩
  | publish gated now pos errM => cases hpublish

end Since

end Memory

namespace Turn

section
variable {F : Type} [F64 F]

/-- The turn refuses a fix of the aircraft `k` for its speed. -/
def tooFast (env : Env F) (k : Icao) (s : State F) (t : Turn F) : Bool :=
  (t.act env s k).isTooFast

/-- The turn neither publishes a fix of the aircraft `k` nor leaves it without a track. -/
def Between (env : Env F) (k : Icao) (s : State F) (t : Turn F) : Prop :=
  (∀ a sol, t.published env s = some (a, sol) → a.icao ≠ k) ∧ k ∈ (t.step env s).tracks

/-- What a turn that publishes does to the memory of its aircraft. -/
theorem act_of_published {env : Env F} {s : State F} {t : Turn F} {a : Attempt F}
    {sol : Solution F} (h : t.published env s = some (a, sol)) :
    t.act env s a.icao = .publish a.gate.isSome a.nowScaled sol.pos (fixErrM sol) := by
  obtain ⟨now, g, localRef, cluster, rfl, ha, hj, hd⟩ := published_eq_some h
  obtain ⟨made, -, -⟩ := State.made_of_attempted ha
  unfold act Attempt.act
  simp only
  rw [if_neg (not_not.2 made.icao.symm), if_neg (not_lt.2 made.enough), ha]
  simp only [hj, hd, Bool.false_eq_true, if_false]

/-- Only a turn that publishes a fix of the aircraft does so to its memory. -/
theorem published_of_act {env : Env F} {s : State F} {t : Turn F} {k : Icao}
    (h : (t.act env s k).isPublish = true) :
    ∃ a sol, t.published env s = some (a, sol) ∧ a.icao = k := by
  have hother : ∀ {p : Prop} [Decidable p],
      (if p then Memory.Act.forget (F := F) else .idle).isPublish ≠ true := by
    intro p _
    split
    · nofun
    · nofun
  cases t with
  | msg now heard m => exact absurd h hother
  | expire now => exact absurd h hother
  | take key =>
    have h1 : (Turn.take key).act env s k = .idle := rfl
    rw [h1] at h
    cases h
  | solve now g localRef cluster =>
    unfold act at h
    simp only at h
    split at h
    · cases h
    · next hk =>
      split at h
      · cases h
      · cases ha : s.attempted env now g localRef cluster with
        | none =>
          rw [ha] at h
          cases h
        | some p =>
          obtain ⟨a, osol⟩ := p
          rw [ha] at h
          cases osol with
          | none => cases h
          | some sol =>
            unfold Attempt.act at h
            simp only at h
            cases hj : State.judge a sol with
            | some refusal =>
              rw [hj] at h
              cases refusal with
              | tooFast | uncertain | throttled | offTrack => cases h
            | none =>
              rw [hj] at h
              simp only at h
              split at h
              · cases h
              · next hd =>
                exact ⟨a, sol, published_of_attempted ha hj (Bool.eq_false_iff.2 hd),
                  (State.made_of_attempted ha).1.icao.trans (not_not.1 hk)⟩

end

theorem act_ne_forget {env : Env ℝ} {s : State ℝ} {t : Turn ℝ} {k : Icao}
    (h : k ∈ (t.step env s).tracks) : t.act env s k ≠ .forget := by
  intro hact
  have h1 : (t.step env s).tracks.lookup k = none := by
    have h2 := congrArg Memory.track (memoryOf_step env s k t)
    rw [hact] at h2
    exact h2
  rw [Finmap.mem_iff_isSome, h1] at h
  cases h

/-- The fix that is left after the turns in between. -/
theorem since_exec (env : Env ℝ) (k : Icao) {pos : Geodetic ℝ} {time : ℝ} (ts : List (Turn ℝ))
    {s : State ℝ} {n : ℕ} (h : Memory.Since pos time n (s.memoryOf k))
    (hts : Run.Steps (Turn.step env) (Between env k) s ts)
    (hclock : ∀ x ∈ readings s ts, time ≤ x) :
    Memory.Since pos time (n + Run.count (Turn.step env) (tooFast env k) s ts)
      ((Run.exec (Turn.step env) s ts).memoryOf k) := by
  induction ts generalizing s n with
  | nil => exact h
  | cons t ts ih =>
    obtain ⟨⟨hother, hkept⟩, hts⟩ := hts
    have hpublish : (t.act env s k).isPublish = false := by
      rw [Bool.eq_false_iff]
      intro hp
      obtain ⟨a, sol, ha, hk⟩ := published_of_act hp
      exact hother a sol ha hk
    have h1 := h.step (act_ne_forget hkept) hpublish fun x hx =>
      hclock x ((mem_readings_cons s).2 (Or.inl (act_clock env s t k hx)))
    rw [← memoryOf_step] at h1
    rw [Run.exec_cons, Run.count, ← Nat.add_assoc]
    refine ih h1 hts fun x hx => ?_
    rw [readings_step] at hx
    exact hclock x ((mem_readings_cons s).2 (Or.inr hx))

theorem readings_exec (env : Env ℝ) (s : State ℝ) (ts us : List (Turn ℝ)) :
    readings (Run.exec (Turn.step env) s ts) us = readings s us := by
  induction ts generalizing s with
  | nil => rfl
  | cons t ts ih => rw [Run.exec_cons, ih, readings_step]

theorem readings_append (s : State ℝ) (ts us : List (Turn ℝ)) :
    readings s (ts ++ us) = readings s ts ++ readings s us := by
  unfold readings
  rw [List.filterMap_append, List.map_append]

/-- A fix is published at the reading of its turn. -/
theorem nowScaled_of_published {env : Env ℝ} {s : State ℝ} {t : Turn ℝ} {a : Attempt ℝ}
    {sol : Solution ℝ} (h : t.published env s = some (a, sol)) (ts : List (Turn ℝ)) :
    readings s (t :: ts) = a.nowScaled :: readings s ts := by
  obtain ⟨now, g, localRef, cluster, rfl, ha, -, -⟩ := published_eq_some h
  rw [(State.made_of_attempted ha).1.nowScaled]
  rfl

/-- The attempt of a fix was made with the track that the aircraft then had. -/
theorem track_of_published {env : Env ℝ} {s : State ℝ} {t : Turn ℝ} {a : Attempt ℝ}
    {sol : Solution ℝ} (h : t.published env s = some (a, sol)) :
    a.track = (s.memoryOf a.icao).entry ∧ a.tooSoon = false := by
  obtain ⟨now, g, localRef, cluster, rfl, ha, -, -⟩ := published_eq_some h
  obtain ⟨made, -, -⟩ := State.made_of_attempted ha
  rw [made.icao]
  exact ⟨made.track, made.inTime⟩

end Turn

/-! ## Runs -/

/-- The spacing of two consecutive fixes `sol` and `sol'` of an aircraft, made by the attempts `a`
    and `b`, with `refusals` refusals for speed in between. -/
structure Spaced (a b : Attempt ℝ) (sol sol' : Solution ℝ) (refusals : ℕ) : Prop where
  backoff : resolveBackoffS ≤ b.nowScaled - a.nowScaled
  throttle : refusals < 5 → 20 * sol'.errEstM / throttleScaleM ≤ b.nowScaled - a.nowScaled
  speed : refusals < 5 → b.nowScaled - a.nowScaled < 30 →
    sol'.pos.haversineM sol.pos ≤ 400 * (b.nowScaled - a.nowScaled)

/-- The discipline of what a run of turns publishes. -/
structure Disciplined (env : Env ℝ) (s : State ℝ) (ts : List (Turn ℝ)) : Prop where
  /-- an emitted fix is the one its turn publishes -/
  rows : ∀ pre t post, ts = pre ++ t :: post → ∀ row,
    .fix row ∈ t.out env (Run.exec (Turn.step env) s pre) →
    ∃ a sol, t.published env (Run.exec (Turn.step env) s pre) = some (a, sol) ∧
      row.icao = a.icao ∧ row.stamp = a.stamp ∧ row.lat = sol.pos.latDeg ∧
      row.lon = sol.pos.lonDeg ∧ row.csvLine = csvRow a sol.pos sol.errEstM
  ceiling : ∀ pre t post, ts = pre ++ t :: post → ∀ a sol,
    t.published env (Run.exec (Turn.step env) s pre) = some (a, sol) → sol.errEstM ≤ maxErrM
  stamp : ∀ pre t post, ts = pre ++ t :: post → ∀ a sol,
    t.published env (Run.exec (Turn.step env) s pre) = some (a, sol) →
    ∀ u ∈ a.used, a.stamp ≤ u.atScaled
  spaced : ∀ pre t mid t' post, ts = pre ++ t :: (mid ++ t' :: post) → ∀ a sol b sol',
    t.published env (Run.exec (Turn.step env) s pre) = some (a, sol) →
    t'.published env (Run.exec (Turn.step env) s (pre ++ t :: mid)) = some (b, sol') →
    b.icao = a.icao →
    let s' := t.step env (Run.exec (Turn.step env) s pre)
    Run.Steps (Turn.step env) (Turn.Between env a.icao) s' mid →
    Spaced a b sol sol' (Run.count (Turn.step env) (Turn.tooFast env a.icao) s' mid)

/-- A fix after another, with neither a fix nor expiry in between. -/
theorem Turn.spaced (env : Env ℝ) (s : State ℝ) (t : Turn ℝ) (mid : List (Turn ℝ)) (t' : Turn ℝ)
    (hclock : (readings s (t :: (mid ++ [t']))).Pairwise (· ≤ ·)) {a b : Attempt ℝ}
    {sol sol' : Solution ℝ} (ha : t.published env s = some (a, sol))
    (hb : t'.published env (Run.exec (Turn.step env) (t.step env s) mid) = some (b, sol'))
    (hab : b.icao = a.icao)
    (hmid : Run.Steps (Turn.step env) (Between env a.icao) (t.step env s) mid) :
    Spaced a b sol sol' (Run.count (Turn.step env) (tooFast env a.icao) (t.step env s) mid) := by
  rw [nowScaled_of_published ha, readings_append] at hclock
  have hafter := (List.pairwise_cons.1 hclock).1
  have hstart : Memory.Since sol.pos a.nowScaled 0 ((t.step env s).memoryOf a.icao) := by
    rw [memoryOf_step, act_of_published ha]
    exact Memory.Since.publish _ _ _ _ _
  have hsince := since_exec env a.icao mid hstart hmid fun x hx => by
    rw [readings_step] at hx
    exact hafter x (List.mem_append_left _ hx)
  rw [Nat.zero_add] at hsince
  obtain ⟨htrack, hsoon⟩ := track_of_published hb
  rw [hab] at htrack
  have hattempt := hsince.attempt
  have hlast := hsince.last
  rw [← htrack] at hattempt hlast
  have hbackoff : (resolveBackoffS : ℝ) ≤ b.nowScaled - a.nowScaled :=
    (backoff_le hsoon).trans (sub_le_sub_left hattempt _)
  obtain ⟨-, -, -, -, -, -, hj, -⟩ := published_eq_some hb
  have hgates := (judge_eq_none hj).2 sol.pos
  refine ⟨hbackoff, fun hfew => ?_, fun hfew hshort => ?_⟩
  · obtain ⟨hpos, htime, -⟩ := hlast hfew
    have h1 := (hgates hpos).1
    rw [htime] at h1
    exact h1
  · obtain ⟨hpos, htime, -⟩ := hlast hfew
    have h1 := (hgates hpos).2
    rw [htime] at h1
    refine h1 (lt_of_lt_of_le ?_ hbackoff) hshort
    have h2 : (0.05 : ℝ) < 0.4 := by norm_num
    exact h2

/-- Every run of turns whose output clock does not go back is disciplined, whatever the solver
    returns and whatever state it starts in. -/
theorem Turn.disciplined (env : Env ℝ) (s : State ℝ) (ts : List (Turn ℝ))
    (hclock : (readings s ts).Pairwise (· ≤ ·)) : Disciplined env s ts where
  rows pre t post _ row hrow := by
    obtain ⟨a, sol, smoothed, hp, rfl⟩ := published_of_mem_out hrow
    exact ⟨a, sol, hp, rfl, rfl, rfl, rfl, rfl⟩
  ceiling pre t post _ a sol hp := by
    obtain ⟨-, -, -, -, -, -, hj, -⟩ := published_eq_some hp
    exact (judge_eq_none hj).1
  stamp pre t post _ a sol hp u hu := by
    obtain ⟨now, g, localRef, cluster, rfl, ha, -, -⟩ := published_eq_some hp
    obtain ⟨made, hstamp, -⟩ := State.made_of_attempted ha
    rw [made.used] at hu
    rw [hstamp]
    exact stampCluster_le _ localRef ((capUsed_sublist _).subset hu)
  spaced pre t mid t' post hts a sol b sol' ha hb hab := by
    intro s' hmid
    rw [Run.exec_append] at hb
    refine Turn.spaced env _ t mid t' ?_ ha hb hab hmid
    rw [readings_exec]
    refine hclock.sublist ?_
    have h1 : (t :: (mid ++ [t'])).Sublist ts := by
      rw [hts]
      have h2 : mid ++ t' :: post = (mid ++ [t']) ++ post := by simp
      rw [h2, ← List.cons_append]
      exact (List.sublist_append_left _ post).trans (List.sublist_append_right pre _)
    unfold readings
    exact (h1.filterMap _).map _

/-! ## Two fixes -/

namespace Sample

noncomputable section

/-- The inner solver finds one place, whatever it is asked. -/
def placedAt (altM : ℝ) : Solution ℝ :=
  { pos := ⟨48.0, 2.0, altM⟩, rmsS := 0, errEstM := 10.0, errGeomM := 10.0, iterations := 1
    tTx := 0, residualsS := [] }

def placing : Env ℝ := { hexDecode := Hex.decode, solve := fun _ altM _ => some (placedAt altM) }

def heardByFive : Group ℝ := { created := 0, icao := ⟨0x3c6444⟩, df17 := false, entries := [] }

/-- Five feeders, and the altitude of an aircraft. -/
def known : State ℝ :=
  { State.new 0 1 false false (0, 0) 0 with
    receivers := List.replicate 5 default
    alive := List.replicate 5 true
    rxBias := List.replicate 5 RxBias.default
    altsFt := (∅ : HashMap Icao ℤ).insert heardByFive.icao 36000 }

/-- One arrival of each, the output clock `at'` as they came. -/
def oneOfEach (at' : ℝ) : List (Arrival ℝ) := (List.range 5).map fun i => ⟨i, 0, 0, at'⟩

/-- They are solved at second `n`. -/
def solvedAt (n : ℕ) : Turn ℝ := .solve (seconds n) heardByFive 0 (oneOfEach n)

end

/-- What a solve of the five reads of a state. -/
structure Solvable (s : State ℝ) : Prop where
  alive : ∀ i < 5, s.isAlive i = true
  clear : ∀ i < 5, (s.bias i).quarantined = false
  altFt : s.altsFt.lookup heardByFive.icao = some 36000
  clock : ∀ n, s.scaledNow (seconds n) = n

theorem Solvable.selectObs {s : State ℝ} (h : Solvable s) (x : ℝ) :
    (s.selectObs (oneOfEach x)).used.length = 5 ∧
      (s.selectObs (oneOfEach x)).benched = [] := by
  simp [State.selectObs, State.selectOne, oneOfEach, List.range_succ, h.alive, h.clear]

theorem Solvable.length_capUsed {s : State ℝ} (h : Solvable s) (x : ℝ) :
    (capUsed (s.selectObs (oneOfEach x)).used).length = 5 := by
  have hused := (h.selectObs x).1
  unfold capUsed
  rw [hused, if_neg (by decide), hused]

theorem known_solvable : Solvable known where
  alive := by decide
  clear i hi := by
    have hbias : known.bias i = RxBias.default := List.getD_replicate _ hi
    rw [hbias]
    rfl
  altFt := by
    unfold known
    simp only [Finmap.lookup_insert_ite, if_true]
  clock n := by
    have hreal : (F64.ofNanos (seconds n) : ℝ) = n := by
      rw [F64.real_ofNanos]
      unfold seconds
      push_cast
      norm_num
    show (0 : ℝ) + F64.ofNanos (seconds n - 0) * 1 = n
    rw [Nat.sub_zero, hreal, zero_add, mul_one]

/-- A fit of five without residuals is taken as it is. -/
theorem solution_placing (s : State ℝ) {a : Attempt ℝ} (h : a.used.length = 5) :
    s.solution placing a = some (placedAt a.altM) := by
  have hlen : (a.used.map Used.obs).length = 5 := by rw [List.length_map, h]
  have hnear : (placedAt a.altM).rmsS ≤ lobeTestRmsFactor *
      F64.sqrt (F64.sum ((a.used.map Used.obs).map fun o => o.errS * o.errS) /
        F64.ofNat (a.used.map Used.obs).length) :=
    mul_nonneg (by norm_num [lobeTestRmsFactor]) (Real.sqrt_nonneg _)
  have hfull : acrossTheLine placing.solve (a.used.map Used.obs) a.altM (placedAt a.altM) =
      some (placedAt a.altM) := by
    unfold acrossTheLine
    exact if_pos ⟨by omega, hnear⟩
  have htrigger : ¬ (0.5e-6 : ℝ) < (placedAt a.altM).rmsS := by norm_num [placedAt]
  have hsolve : placing.solve (a.used.map Used.obs) a.altM (s.startPoint a) =
      some (placedAt a.altM) := rfl
  unfold State.solution solveRobust
  rw [hsolve, Option.bind_some, hfull]
  simp only
  refine if_pos ?_
  rw [decide_eq_false htrigger]
  rfl

/-- Beyond the backoff the five are solved, and the place is found. -/
theorem Solvable.attempted {s : State ℝ} (h : Solvable s) {n : ℕ}
    (hsoon : 0.4 ≤ (n : ℝ) -
      ((s.tracks.lookup heardByFive.icao).getD Track.default).lastAttemptScaled) :
    ∃ a, s.attempted placing (seconds n) heardByFive 0 (oneOfEach n) =
      some (a, some (placedAt a.altM)) ∧ a.gate = none ∧ a.altM = F64.ofInt 36000 * 0.3048 := by
  have hused := (h.selectObs n).1
  have hlen := h.length_capUsed n
  have hgate (t : State ℝ) (altM now : ℝ) : t.gateFor heardByFive.icao
      (capUsed (s.selectObs (oneOfEach n)).used).length altM now = none := by
    unfold State.gateFor
    rw [hlen]
    rfl
  have htime : ¬ s.scaledNow (seconds n) -
      ((s.tracks.lookup heardByFive.icao).getD Track.default).lastAttemptScaled < resolveBackoffS := by
    rw [h.clock n]
    exact not_lt.2 hsoon
  have halt (used : List (Used ℝ)) :
      (s.stampCluster 0 used).1.altsFt.lookup heardByFive.icao = some 36000 := h.altFt
  unfold State.attempted State.attemptAt
  simp only
  rw [hused, if_neg (by decide), halt, Option.map_some, Option.filter_some]
  split
  · rw [Option.map_some]
    refine ⟨_, congrArg (fun sol => some (_, sol)) (solution_placing s ?_), ?_, ?_⟩
    · exact hlen
    · dsimp only
      exact hgate _ _ _
    · dsimp only
  · next hno =>
    refine absurd ?_ hno
    unfold Attempt.tooSoon
    simp only
    rw [hgate]
    exact congrArg not (decide_eq_false htime)

theorem haversineM_self (p : Geodetic ℝ) : p.haversineM p = 0 := by
  have hzero : F64.toRadians (0 : ℝ) = 0 := zero_mul _
  unfold Geodetic.haversineM
  simp only [sub_self, hzero, zero_div]
  show (2.0 : ℝ) * 6371000.8 * Real.arcsin (Real.sqrt (F64.sq (Real.sin 0) +
    F64.cos (F64.toRadians p.latDeg) * F64.cos (F64.toRadians p.latDeg) * F64.sq (Real.sin 0))) = 0
  unfold F64.sq
  simp

/-- It passes the gates, too, when the last fix is none, or a second ago or more at that place. -/
theorem Solvable.published {s : State ℝ} (h : Solvable s) {n : ℕ} {track : Track ℝ}
    (htrack : (s.tracks.lookup heardByFive.icao).getD Track.default = track)
    (hsoon : 0.4 ≤ (n : ℝ) - track.lastAttemptScaled)
    (hlast : ∀ last, track.lastPos = some last →
      last = (placedAt (F64.ofInt 36000 * 0.3048)).pos ∧ 1 ≤ (n : ℝ) - track.lastTimeScaled) :
    ∃ a, (solvedAt n).published placing s = some (a, placedAt (F64.ofInt 36000 * 0.3048)) ∧
      a.icao = heardByFive.icao ∧ a.nowScaled = n := by
  obtain ⟨a, ha, hgate, halt⟩ := h.attempted (by rw [htrack]; exact hsoon)
  obtain ⟨made, -, -⟩ := State.made_of_attempted ha
  have hnow : a.nowScaled = n := made.nowScaled.trans (h.clock n)
  have hatrack : a.track = track := made.track.trans htrack
  rw [halt] at ha
  refine ⟨a, Turn.published_of_attempted ha ?_ made.isDf17, made.icao, hnow⟩
  unfold State.judge
  simp only
  rw [hatrack, hnow, hgate]
  have herr : (placedAt (F64.ofInt 36000 * 0.3048)).errEstM = 10.0 := rfl
  have hsure : ¬ (maxErrM : ℝ) < 10.0 := by norm_num [maxErrM]
  rw [herr, if_neg hsure]
  cases hpos : track.lastPos with
  | none => rfl
  | some last =>
    obtain ⟨rfl, hlater⟩ := hlast last hpos
    have hspaced : ¬ ((some (placedAt (F64.ofInt 36000 * 0.3048)).pos).isSome = true ∧
        ((n : ℝ) - track.lastTimeScaled) / 20.0 < 10.0 / throttleScaleM) := by
      rw [not_and, not_lt]
      intro _
      have hthrottle : (throttleScaleM : ℝ) = 1500 := by norm_num [throttleScaleM]
      rw [hthrottle]
      norm_num
      linarith
    rw [if_neg hspaced]
    simp only [haversineM_self, zero_div]
    norm_num

/-- A fix leaves the state as solvable as it was. -/
theorem Solvable.step {s : State ℝ} (h : Solvable s) {n : ℕ} {a : Attempt ℝ} {altM : ℝ}
    (ha : (solvedAt n).published placing s = some (a, placedAt altM)) :
    Solvable ((solvedAt n).step placing s) where
  alive i hi := by
    have hsolves := State.solveCluster_solves 0 s placing (seconds n) heardByFive (oneOfEach n)
    have halive : ((solvedAt n).step placing s).alive = s.alive := hsolves.alive
    unfold State.isAlive
    rw [halive]
    exact h.alive i hi
  clear i hi := by
    obtain ⟨_, _, _, _, ⟨⟩, hatt, -, -⟩ := Turn.published_eq_some ha
    have hbias : ((solvedAt n).step placing s).bias i = s.bias i := by
      rcases State.solveCluster_bias placing s (seconds n) heardByFive 0 (oneOfEach n) i with
        hsame | ⟨b, sol, hb, ⟨t, ht, -⟩ | ⟨hlen, -⟩⟩
      · exact hsame
      · rw [State.benched_of_attempted hb, (h.selectObs n).2] at ht
        cases ht
      · rw [hatt] at hb
        cases hb
        rw [(State.made_of_attempted hatt).1.used, h.length_capUsed n] at hlen
        cases hlen
    rw [hbias]
    exact h.clear i hi
  altFt := by
    rw [← h.altFt]
    exact congrArg (Finmap.lookup heardByFive.icao)
      (State.solveCluster_concerns placing s (seconds n) heardByFive 0 (oneOfEach n)).altsFt
  clock m := ((State.solveCluster_concerns placing s (seconds n) heardByFive 0
    (oneOfEach n)).clock (seconds m)).trans (h.clock m)

end Sample

open Sample in
/-- The second fix is two seconds after the first, at the same place. -/
theorem Turn.disciplined_two_fixes :
    ∃ a sol b sol', (solvedAt 1).published placing known = some (a, sol) ∧
      (solvedAt 3).published placing ((solvedAt 1).step placing known) = some (b, sol') ∧
      Spaced a b sol sol' 0 ∧ b.nowScaled - a.nowScaled = 2 ∧ sol'.errEstM ≤ maxErrM ∧
      ∀ u ∈ b.used, b.stamp ≤ u.atScaled := by
  have hfirst : (known.tracks.lookup heardByFive.icao).getD Track.default = Track.default := rfl
  obtain ⟨a, ha, haicao, hanow⟩ := known_solvable.published (n := 1) hfirst
    (by norm_num [Track.default]) nofun
  have hknown := known_solvable.step ha
  have htrack := congrArg Memory.track (Turn.memoryOf_step placing known a.icao (solvedAt 1))
  rw [Turn.act_of_published ha, haicao, hanow] at htrack
  -- the track has the first fix, two seconds old
  have hbackoff : (0.4 : ℝ) ≤ (3 : ℕ) - (1 : ℕ) := by norm_num
  have hlater : (1 : ℝ) ≤ (3 : ℕ) - (1 : ℕ) := by norm_num
  obtain ⟨b, hb, hbicao, hbnow⟩ := hknown.published (n := 3)
    (congrArg (fun t => t.getD Track.default) htrack) hbackoff
    (fun last hlast => ⟨(Option.some.inj hlast).symm, hlater⟩)
  have hclock : (Turn.readings known [solvedAt 1, solvedAt 3]).Pairwise (· ≤ ·) :=
    Turn.readings_pairwise zero_le_one (List.pairwise_pair.2 (by decide))
  have h := Turn.disciplined placing known [solvedAt 1, solvedAt 3] hclock
  exact ⟨a, _, b, _, ha, hb, h.spaced [] _ [] _ [] rfl a _ b _ ha hb (hbicao.trans haicao.symm)
    trivial, by rw [hanow, hbnow]; norm_num, h.ceiling [solvedAt 1] _ [] rfl b _ hb,
    h.stamp [solvedAt 1] _ [] rfl b _ hb⟩

end Mlatd
