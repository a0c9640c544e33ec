/-
  What a refused 4-receiver fix leaves behind (state.rs, solve_cluster).

  Two runs are compared that part at such a call: one takes it, the other does not. Their states
  are `Twin`: they differ under a veil, and the tracks agree but for the gated backoff of one
  aircraft. A turn keeps twins when it brings no gated attempt of that aircraft within the backoff
  (`Turn.Spares`), since then it does the same to every memory of both. A wider call reads nothing
  that twins disagree on.
-/
import Mlatd.Lib.Exact
import Mlatd.Tracks.Recipients
import Mlatd.Tracks.Veil

namespace Mlatd

variable {F : Type} [F64 F]

/-- A refusal by the solver or by a gate before that of speed. -/
def Attempt.refused (a : Attempt F) : Option (Solution F) → Bool
  | none => true
  | some sol =>
    match State.judge a sol with
    | some .uncertain | some .throttled | some .offTrack => true
    | _ => false

namespace State

/-- An attempt leaves the count of refusals for speed alone. -/
theorem speedRejects_noteAttempt (s : State F) (a : Attempt F) :
    (((s.entered a.icao).noteAttempt a).tracks.lookup a.icao |>.getD
        Track.default).speedRejects =
      ((s.tracks.lookup a.icao).getD Track.default).speedRejects := by
  unfold noteAttempt entered
  simp only
  rw [Finmap.lookup_modify, if_pos rfl, Finmap.lookup_insert, Option.map_some, Option.getD_some]
  split
  · rfl
  · rfl

/-! ## The attempt of twins -/

/-- The attempt that a cluster offers, whether or not it comes too soon. -/
def offered (s : State F) (now : Instant) (g : Group F) (localRef : ℕ)
    (cluster : List (Arrival F)) : Option (Attempt F) :=
  let sel := s.selectObs cluster
  if sel.used.length < 4 then none
  else
    let stamped := s.stampCluster localRef sel.used
    stamped.1.attemptAt now g stamped.2 { sel with used := capUsed sel.used }

theorem attempted_of_offered (env : Env F) (s : State F) (now : Instant) (g : Group F)
    (localRef : ℕ) (cluster : List (Arrival F)) : s.attempted env now g localRef cluster =
      ((s.offered now g localRef cluster).filter fun a => !a.tooSoon).map
        fun a => (a, s.solution env a) := by
  unfold attempted offered
  simp only
  split <;> rfl

theorem offered_eq_some {s : State F} {now : Instant} {g : Group F} {localRef : ℕ}
    {cluster : List (Arrival F)} {a : Attempt F}
    (h : s.offered now g localRef cluster = some a) :
    a.track = (s.tracks.lookup g.icao).getD Track.default ∧
      a.used = capUsed (s.selectObs cluster).used ∧
      a.gate = s.gateFor g.icao a.used.length a.altM (s.scaledNow now) := by
  unfold offered at h
  simp only at h
  split at h
  · cases h
  · unfold attemptAt at h
    obtain ⟨altFt, -, rfl⟩ := Option.map_eq_some_iff.1 h
    exact ⟨rfl, rfl, rfl⟩

theorem length_capUsed (used : List (Used F)) :
    (capUsed used).length = min maxSolve used.length := by
  unfold capUsed
  split
  · simp
  · omega

/-- More than four observations are not gated. -/
theorem gate_of_wide {s : State F} {now : Instant} {g : Group F} {localRef : ℕ}
    {cluster : List (Arrival F)} {a : Attempt F}
    (h : s.offered now g localRef cluster = some a)
    (hwide : 5 ≤ (s.selectObs cluster).used.length) : a.gate.isSome = false := by
  obtain ⟨-, hused, hgate⟩ := offered_eq_some h
  have hlen : a.used.length ≠ 4 := by
    rw [hused, length_capUsed, maxSolve]
    omega
  rw [hgate]
  unfold gateFor
  rw [if_neg hlen]
  rfl

/-- Under a veil the same attempt is offered, on the track and with the stamp of its own run. -/
theorem offered_veil (s : State F) (v : Veil F) (now : Instant) (g : Group F) (localRef : ℕ)
    (cluster : List (Arrival F)) : ∃ stamp, (s.veil v).offered now g localRef cluster =
      (s.offered now g localRef cluster).map fun a =>
        { a with track := (v.tracks.lookup g.icao).getD Track.default, stamp := stamp } := by
  have h : (s.veil v).selectObs cluster = s.selectObs cluster := rfl
  refine ⟨((s.veil v).stampCluster localRef (s.selectObs cluster).used).2, ?_⟩
  unfold offered
  simp only
  rw [h]
  split
  · rfl
  · unfold attemptAt
    rw [Option.map_map]
    rfl

end State

/-- A clock reading is within the backoff of an attempt at `x`. -/
def InBackoff (x now : F) : Prop := now - x < resolveBackoffS

/-- The memories are the same, or the second has a gated attempt at `T` more, at least the backoff
    after the last one of the first. -/
inductive Memory.Later (T : F) : Memory F → Memory F → Prop where
  | same (m : Memory F) : Later T m m
  | gated (t : Track F) (fixes : List (Fix F))
      (h : ¬ InBackoff t.lastGatedAttemptScaled T) :
      Later T ⟨some t, fixes⟩ ⟨some { t with lastGatedAttemptScaled := T }, fixes⟩

/-- What happens to both leaves them so. -/
theorem Memory.Later.step {T : F} {m m' : Memory F} (h : Later T m m') (act : Act F) :
    Later T (m.step act) (m'.step act) := by
  cases h with
  | same m => exact .same _
  | gated t fixes h =>
    cases act with
    | idle => exact .gated t fixes h
    | forget => exact .same _
    | enter => exact .gated t fixes h
    | attempt gated now =>
      cases gated with
      | true => exact .same _
      | false => exact .gated { t with lastAttemptScaled := now } fixes h
    | tooFast gated now =>
      cases gated with
      | true => exact .same _
      | false =>
        show Later T (if 5 ≤ t.speedRejects + 1 then _ else _)
          (if 5 ≤ t.speedRejects + 1 then _ else _)
        split
        · exact .gated _ _ h
        · exact .gated _ _ h
    | publish gated now pos errM =>
      cases gated with
      | true => exact .same _
      | false => exact .gated _ _ h

/-! ## Twins -/

/-- The states differ under a veil, and of all memories only that of the aircraft may, by a gated
    attempt at `T`. -/
structure Twin (icao : Icao) (T : F) (s s' : State F) : Prop where
  veiled : State.Veiled s s'
  others : ∀ k, k ≠ icao → s'.memoryOf k = s.memoryOf k
  own : Memory.Later T (s.memoryOf icao) (s'.memoryOf icao)

/-- The turn offers no gated attempt of the aircraft within the backoff of one at `T`. -/
def Turn.Spares (icao : Icao) (T : F) (s : State F) : Turn F → Prop
  | .solve now g localRef cluster =>
    g.icao = icao → ∀ a, s.offered now g localRef cluster = some a → a.gate.isSome = true →
      ¬ InBackoff T a.nowScaled
  | _ => True

/-- A turn that offers no gated attempt spares it. -/
theorem Turn.spares_of_ungated {icao : Icao} {T : F} {s : State F} {now : Instant} {g : Group F}
    {localRef : ℕ} {cluster : List (Arrival F)}
    (h : ∀ a, s.offered now g localRef cluster = some a → a.gate.isSome = false) :
    (Turn.solve now g localRef cluster).Spares icao T s := by
  intro _ a ha hg
  rw [h a ha] at hg
  cases hg

section
variable {K : Type} [Field K] [LinearOrder K] [IsStrictOrderedRing K] [FloorRing K] [F64 K]
  [F64.Exact K] {icao : Icao} {T : K}

open F64 (Exact)

omit [IsStrictOrderedRing K] in
theorem inBackoff_iff (x now : K) : InBackoff x now ↔ now - x < (resolveBackoffS : K) := by
  unfold InBackoff
  rw [Exact.hlt, Exact.hsub]

theorem inBackoff_max (x y now : K) :
    InBackoff (F64.max x y) now ↔ InBackoff x now ∨ InBackoff y now := by
  rw [inBackoff_iff, inBackoff_iff, inBackoff_iff, Exact.max, sub_lt_comm, lt_max_iff,
    sub_lt_comm, sub_lt_comm (a := now) (b := y)]

theorem resolveBackoffS_nonneg : (0 : K) ≤ (resolveBackoffS : K) := by
  unfold resolveBackoffS
  rw [Exact.literal]
  norm_num

/-- Past the backoff of `T`, that of an attempt before `T`'s is past too. -/
theorem InBackoff.not_trans {x T now : K} (h : ¬ InBackoff x T) (h' : ¬ InBackoff T now) :
    ¬ InBackoff x now := by
  have h0 := resolveBackoffS_nonneg (K := K)
  rw [inBackoff_iff, not_lt] at h h' ⊢
  linarith

/-- Past the backoff of the attempt at `T`, which of the two last gated attempts counts is all the
    same. -/
theorem tooSoon_eq {a a' : Attempt K} (h : a.Alike a')
    (hT : a'.track.lastGatedAttemptScaled = T)
    (hlast : ¬ InBackoff a.track.lastGatedAttemptScaled T)
    (hgate : a.gate.isSome = true → ¬ InBackoff T a.nowScaled) :
    a'.tooSoon = a.tooSoon := by
  have hg : a'.gate = a.gate := by rw [h]
  have hn : a'.nowScaled = a.nowScaled := by rw [h]
  have hl : a'.track.lastAttemptScaled = a.track.lastAttemptScaled := by rw [h]
  unfold Attempt.tooSoon
  simp only
  rw [hg, hn, hl, hT]
  by_cases hsome : a.gate.isSome = true
  · have hgate := hgate hsome
    have hlast := InBackoff.not_trans hlast hgate
    have h1 : InBackoff (F64.max a.track.lastAttemptScaled T) a.nowScaled ↔
        InBackoff (F64.max a.track.lastAttemptScaled a.track.lastGatedAttemptScaled)
          a.nowScaled := by
      rw [inBackoff_max, inBackoff_max, or_iff_left hgate, or_iff_left hlast]
    rw [if_pos hsome, if_pos hsome]
    exact decide_eq_decide.2 h1
  · rw [if_neg hsome, if_neg hsome]

namespace Twin

variable {s s' : State K}

omit [Field K] [LinearOrder K] [IsStrictOrderedRing K] [FloorRing K] [Exact K] in
/-- The tracks of an aircraft in twins. -/
theorem tracks (h : Twin icao T s s') (k : Icao) :
    s'.tracks.lookup k = s.tracks.lookup k ∨
      k = icao ∧ ∃ t, s.tracks.lookup k = some t ∧
        s'.tracks.lookup k = some { t with lastGatedAttemptScaled := T } ∧
        ¬ InBackoff t.lastGatedAttemptScaled T := by
  by_cases hk : k = icao
  · have hown := h.own
    rw [← hk] at hown
    generalize hm : s.memoryOf k = m at hown
    generalize hm' : s'.memoryOf k = m' at hown
    cases hown with
    | same => exact Or.inl (congrArg Memory.track (hm'.trans hm.symm))
    | gated t fixes hT =>
      exact Or.inr ⟨hk, t, congrArg Memory.track hm, congrArg Memory.track hm', hT⟩
  · exact Or.inl (congrArg Memory.track (h.others k hk))

omit [Field K] [LinearOrder K] [IsStrictOrderedRing K] [FloorRing K] [Exact K] in
theorem speedRejects (h : Twin icao T s s') (k : Icao) :
    ((s'.tracks.lookup k).getD Track.default).speedRejects =
      ((s.tracks.lookup k).getD Track.default).speedRejects := by
  rcases h.tracks k with heq | ⟨-, t, ht, ht', -⟩
  · rw [heq]
  · rw [ht, ht']
    rfl

/-- In twins a cluster offers attempts alike, both in time or both too soon. -/
theorem offered (h : Twin icao T s s') {now : Instant} {g : Group K} {localRef : ℕ}
    {cluster : List (Arrival K)} (hs : (Turn.solve now g localRef cluster).Spares icao T s) :
    (s.offered now g localRef cluster = none ∧ s'.offered now g localRef cluster = none) ∨
    ∃ a a', s.offered now g localRef cluster = some a ∧
      s'.offered now g localRef cluster = some a' ∧ a.Alike a' ∧ a'.tooSoon = a.tooSoon := by
  have hv : s' = s.veil s'.cover := h.veiled
  obtain ⟨stamp, hoff⟩ := State.offered_veil s s'.cover now g localRef cluster
  rw [← hv] at hoff
  cases ho : s.offered now g localRef cluster with
  | none =>
    rw [ho] at hoff
    exact Or.inl ⟨rfl, hoff⟩
  | some a =>
    rw [ho] at hoff
    refine Or.inr ⟨a, _, rfl, hoff, ?_⟩
    obtain ⟨htrack, -, -⟩ := State.offered_eq_some ho
    have hcover : s'.cover.tracks = s'.tracks := rfl
    rcases h.tracks g.icao with heq | ⟨hicao, t, ht, ht', hT⟩
    · have heq : (s'.cover.tracks.lookup g.icao).getD Track.default = a.track := by
        rw [hcover, heq, htrack]
      rw [heq]
      exact ⟨rfl, rfl⟩
    · have htrack : a.track = t := by
        rw [htrack, ht]
        rfl
      have heq : (s'.cover.tracks.lookup g.icao).getD Track.default =
          { a.track with lastGatedAttemptScaled := T } := by
        rw [hcover, ht', htrack]
        rfl
      rw [heq]
      refine ⟨rfl, tooSoon_eq rfl rfl ?_ (hs hicao a ho)⟩
      rw [htrack]
      exact hT

/-- In twins a cluster leads to attempts alike and to the same solution. -/
theorem attempted (h : Twin icao T s s') (env : Env K) {now : Instant} {g : Group K}
    {localRef : ℕ} {cluster : List (Arrival K)}
    (hs : (Turn.solve now g localRef cluster).Spares icao T s) :
    (s.attempted env now g localRef cluster = none ∧
      s'.attempted env now g localRef cluster = none) ∨
    ∃ a a' sol, s.attempted env now g localRef cluster = some (a, sol) ∧
      s'.attempted env now g localRef cluster = some (a', sol) ∧ a.Alike a' := by
  have hv : s' = s.veil s'.cover := h.veiled
  rw [State.attempted_of_offered, State.attempted_of_offered]
  rcases h.offered hs with ⟨ho, ho'⟩ | ⟨a, a', ho, ho', halike, hsoon⟩
  · rw [ho, ho']
    exact Or.inl ⟨rfl, rfl⟩
  · have hsol : s'.solution env a' = s.solution env a := by
      rw [hv]
      exact halike.solution env s _
    rw [ho, ho', Option.filter_some, Option.filter_some, hsoon]
    split
    · exact Or.inr ⟨a, a', s.solution env a, rfl, by rw [Option.map_some, hsol], halike⟩
    · exact Or.inl ⟨rfl, rfl⟩

omit [Field K] [LinearOrder K] [IsStrictOrderedRing K] [FloorRing K] [Exact K] in
theorem selectObs (h : Twin icao T s s') (cluster : List (Arrival K)) :
    s'.selectObs cluster = s.selectObs cluster := by
  rw [h.veiled]
  rfl

/-- A turn of twins leaves them under a veil. -/
theorem veiled_step (h : Twin icao T s s') (env : Env K) {t : Turn K} (hs : t.Spares icao T s) :
    State.Veiled (t.step env s) (t.step env s') := by
  have hv : s' = s.veil s'.cover := h.veiled
  cases t with
  | msg now heard m =>
    rw [hv]
    exact State.handle_veil env s _ now heard m
  | expire now =>
    rw [hv]
    exact State.expire_veil s _ now
  | take key =>
    rw [hv]
    rfl
  | solve now g localRef cluster =>
    unfold Turn.step
    simp only
    rcases h.attempted env hs with ⟨ha, ha'⟩ | ⟨a, a', sol, ha, ha', halike⟩
    · rw [State.solveCluster_of_none ha, State.solveCluster_of_none ha', h.selectObs, hv]
      split
      · rfl
      · rfl
    · have hicao : a.icao = g.icao := (State.made_of_attempted ha).1.icao
      have hicao' : a'.icao = a.icao := by rw [halike]
      rw [State.solveCluster_of_some ha, State.solveCluster_of_some ha', ← hicao, h.selectObs]
      have hveil : State.Veiled
          (((s.stampCluster localRef (s.selectObs cluster).used).1.entered a.icao).noteAttempt a)
          (((s'.stampCluster localRef (s.selectObs cluster).used).1.entered a.icao).noteAttempt
            a') := by
        rw [hv, halike]
        rfl
      refine State.conclude_veiled hveil halike ?_ sol
      rw [State.speedRejects_noteAttempt]
      rw [← hicao', State.speedRejects_noteAttempt]
      exact h.speedRejects a'.icao

/-- A turn does the same to every memory of twins. -/
theorem act (h : Twin icao T s s') (env : Env K) {t : Turn K} (hs : t.Spares icao T s) (k : Icao) :
    t.act env s' k = t.act env s k := by
  have hlog : (t.step env s').acLog = (t.step env s).acLog := by
    rw [h.veiled_step env hs]
    rfl
  have hexp : t.expires s' = t.expires s := by
    rw [h.veiled]
    cases t <;> rfl
  have hother (t : Turn K) (ht : t.expires s' = t.expires s)
      (hl : (t.step env s').acLog = (t.step env s).acLog) :
      (if t.expires s' = true ∧ k ∉ (t.step env s').acLog then .forget else .idle : Memory.Act K) =
        if t.expires s = true ∧ k ∉ (t.step env s).acLog then .forget else .idle := by
    rw [ht, hl]
  cases t with
  | msg now heard m => exact hother _ hexp hlog
  | expire now => exact hother _ hexp hlog
  | take key => exact hother _ hexp hlog
  | solve now g localRef cluster =>
    unfold Turn.act
    simp only
    rw [h.selectObs]
    rcases h.attempted env hs with ⟨ha, ha'⟩ | ⟨a, a', sol, ha, ha', halike⟩
    · rw [ha, ha']
    · rw [ha, ha']
      simp only
      rw [halike.act]

/-- A turn that spares the attempt at `T` keeps twins. -/
theorem step (h : Twin icao T s s') (env : Env K) {t : Turn K} (hs : t.Spares icao T s) :
    Twin icao T (t.step env s) (t.step env s') where
  veiled := h.veiled_step env hs
  others k hk := by rw [Turn.memoryOf_step, Turn.memoryOf_step, h.act env hs, h.others k hk]
  own := by
    rw [Turn.memoryOf_step, Turn.memoryOf_step, h.act env hs]
    exact h.own.step _

theorem exec (h : Twin icao T s s') (env : Env K) {ts : List (Turn K)}
    (hs : Run.Steps (Turn.step env) (Turn.Spares icao T) s ts) :
    Twin icao T (Run.exec (Turn.step env) s ts) (Run.exec (Turn.step env) s' ts) := by
  induction ts generalizing s s' with
  | nil => exact h
  | cons t ts ih => exact ih (h.step env hs.1) hs.2

/-- A wider call publishes the same fix in twins, or in neither. -/
theorem published (h : Twin icao T s s') (env : Env K) {now : Instant} {g : Group K}
    {localRef : ℕ} {cluster : List (Arrival K)} (hwide : 5 ≤ (s.selectObs cluster).used.length) :
    ((Turn.solve now g localRef cluster).published env s').map Prod.snd =
      ((Turn.solve now g localRef cluster).published env s).map Prod.snd := by
  have hs : (Turn.solve now g localRef cluster).Spares icao T s :=
    Turn.spares_of_ungated fun a ha => State.gate_of_wide ha hwide
  unfold Turn.published
  simp only
  rcases h.attempted env hs with ⟨ha, ha'⟩ | ⟨a, a', sol, ha, ha', halike⟩
  · rw [ha, ha']
  · rw [ha, ha', Option.bind_some, Option.bind_some, halike.publishes]
    simp only [Option.map_map]
    rfl

end Twin

end

/-! ## The refused attempt -/

namespace Memory

/-- An aircraft with fixes has a track. -/
def Tracked (m : Memory F) : Prop := m.fixes ≠ [] → m.track.isSome = true

theorem Tracked.step {m : Memory F} (h : Tracked m) (act : Act F) : Tracked (m.step act) := by
  cases act with
  | idle => exact h
  | forget => exact fun hf => absurd rfl hf
  | enter | attempt gated now | publish gated now pos errM => exact fun _ => rfl
  | tooFast gated now =>
    unfold Memory.step
    simp only
    split
    · exact fun _ => rfl
    · exact fun _ => rfl

end Memory

theorem Turn.tracked_exec (env : Env F) {s : State F} {k : Icao} (h : (s.memoryOf k).Tracked)
    (ts : List (Turn F)) : ((Run.exec (Turn.step env) s ts).memoryOf k).Tracked := by
  refine Run.invariant (I := fun s : State F => (s.memoryOf k).Tracked) (fun s t hs => ?_) h ts
  rw [Turn.memoryOf_step]
  exact hs.step _

namespace State

/-- The state after a refused attempt. -/
def afterRefusal (s : State F) (icao : Icao) (now : F) (localRef : ℕ) (off : F) : State F :=
  { s with
    tracks := s.tracks.modify icao fun t => { t with lastGatedAttemptScaled := now }
    statsRejected := s.statsRejected + 1
    stampOffset := s.stampOffset.insert localRef off }

theorem conclude_of_refused (s : State F) {a : Attempt F} {sol : Option (Solution F)}
    (h : a.refused sol = true) : s.conclude a sol = (s.reject, []) := by
  cases sol with
  | none => rfl
  | some sol =>
    unfold Attempt.refused at h
    unfold conclude
    simp only at h ⊢
    cases hj : judge a sol with
    | none =>
      rw [hj] at h
      cases h
    | some refusal =>
      cases refusal with
      | uncertain | throttled | offTrack => rfl
      | tooFast =>
        rw [hj] at h
        cases h

section
variable {env : Env F} {s : State F} {now : Instant} {g : Group F} {localRef : ℕ}
  {cluster : List (Arrival F)} {a : Attempt F} {sol : Option (Solution F)}

/-- The gate of an aircraft rests on its fixes. -/
theorem fixes_of_gate (ha : s.attempted env now g localRef cluster = some (a, sol))
    (hgate : a.gate.isSome = true) : s.fixesOf g.icao ≠ [] := by
  rw [attempted_of_offered] at ha
  obtain ⟨a', hoff, heq⟩ := Option.map_eq_some_iff.1 ha
  cases heq
  obtain ⟨hoff, -⟩ := Option.filter_eq_some_iff.1 hoff
  rw [(offered_eq_some hoff).2.2] at hgate
  unfold gateFor trackPrediction at hgate
  split at hgate
  · intro hnil
    unfold fixesOf at hnil
    cases hl : s.acLog.lookup g.icao with
    | none =>
      rw [hl] at hgate
      cases hgate
    | some l =>
      rw [hl] at hnil hgate
      have hnil : l.fixes = [] := hnil
      rw [Option.bind_some, hnil] at hgate
      cases hgate
  · cases hgate

/-- What a refused gated attempt of an aircraft with a track leaves behind. -/
theorem solveCluster_of_refused (ha : s.attempted env now g localRef cluster = some (a, sol))
    (hgate : a.gate.isSome = true) (href : a.refused sol = true)
    (htrack : (s.tracks.lookup g.icao).isSome = true) :
    ∃ off, s.solveCluster env now g localRef cluster =
      (s.afterRefusal g.icao (s.scaledNow now) localRef off, []) := by
  obtain ⟨t, ht⟩ := Option.isSome_iff_exists.1 htrack
  obtain ⟨made, -, -⟩ := made_of_attempted ha
  have htracks : ((s.entered g.icao).noteAttempt a).tracks =
      s.tracks.modify g.icao fun t => { t with lastGatedAttemptScaled := s.scaledNow now } := by
    unfold noteAttempt entered
    simp only [hgate, if_true, made.icao, made.nowScaled]
    apply Finmap.ext_lookup
    intro k
    rw [Finmap.lookup_modify, Finmap.lookup_modify, Finmap.lookup_insert, ht]
    by_cases hk : k = g.icao
    · rw [if_pos hk, if_pos hk]
      rfl
    · rw [if_neg hk, if_neg hk, Finmap.lookup_insert_of_ne _ hk]
  rw [solveCluster_of_some ha, conclude_of_refused _ href]
  unfold afterRefusal
  rw [← htracks]
  exact ⟨_, rfl⟩

end

end State

section
variable {K : Type} [Field K] [LinearOrder K] [IsStrictOrderedRing K] [FloorRing K] [F64 K]
  [F64.Exact K]

/-- A refused gated attempt parts twins. -/
theorem twin_of_refused {env : Env K} {s : State K} {now : Instant} {g : Group K} {localRef : ℕ}
    {cluster : List (Arrival K)} {a : Attempt K} {sol : Option (Solution K)}
    (ha : s.attempted env now g localRef cluster = some (a, sol)) (hgate : a.gate.isSome = true)
    {t : Track K} (ht : s.tracks.lookup g.icao = some t) (off : K) :
    Twin g.icao (s.scaledNow now) s (s.afterRefusal g.icao (s.scaledNow now) localRef off) := by
  obtain ⟨made, -, -⟩ := State.made_of_attempted ha
  have hlast : ¬ InBackoff t.lastGatedAttemptScaled (s.scaledNow now) := by
    have hsoon := made.inTime
    have htrack : a.track = t := by
      rw [made.track, ht]
      rfl
    unfold Attempt.tooSoon at hsoon
    simp only at hsoon
    rw [if_pos hgate, decide_eq_false_iff_not, made.nowScaled, htrack] at hsoon
    exact fun h => hsoon ((inBackoff_max _ _ _).2 (Or.inr h))
  refine ⟨rfl, fun k hk => ?_, ?_⟩
  · unfold State.memoryOf State.afterRefusal
    simp only
    rw [Finmap.lookup_modify, if_neg hk]
    rfl
  · unfold State.memoryOf State.afterRefusal
    simp only
    rw [Finmap.lookup_modify, if_pos rfl, ht]
    exact .gated t _ hlast

/-- **A refused 4-receiver fix leaves no trace for wider frames.** It changes the gated backoff of
    its aircraft, the count of refusals and the offset of the reference, and nothing else. Every
    later call on five observations or more of the aircraft publishes what it publishes in the run
    without the refused attempt, when no other gated attempt of the aircraft is offered within the
    backoff of the refused one in between. -/
theorem Shard.refused_leaves_no_trace (env : Env K) (c : Config K) (ts : List (Turn K))
    (now : Instant) (g : Group K) (localRef : ℕ) (cluster : List (Arrival K)) (a : Attempt K)
    (sol : Option (Solution K)) :
    let s := Run.exec (Turn.step env) (boot c) ts
    s.attempted env now g localRef cluster = some (a, sol) → a.gate.isSome = true →
    a.refused sol = true →
    ∃ off, s.solveCluster env now g localRef cluster =
        (s.afterRefusal g.icao (s.scaledNow now) localRef off, []) ∧
      ∀ us, Run.Steps (Turn.step env) (Turn.Spares g.icao (s.scaledNow now)) s us →
        ∀ now' g' localRef' cluster',
          5 ≤ ((Run.exec (Turn.step env) s us).selectObs cluster').used.length →
          ((Turn.solve now' g' localRef' cluster').published env
              (Run.exec (Turn.step env) (s.afterRefusal g.icao (s.scaledNow now) localRef off)
                us)).map Prod.snd =
            ((Turn.solve now' g' localRef' cluster').published env
              (Run.exec (Turn.step env) s us)).map Prod.snd := by
  intro s ha hgate href
  have hblank : ((boot c).memoryOf g.icao).Tracked := fun h => absurd rfl h
  have htrack : (s.tracks.lookup g.icao).isSome = true :=
    Turn.tracked_exec env hblank ts (State.fixes_of_gate ha hgate)
  obtain ⟨off, hstep⟩ := State.solveCluster_of_refused ha hgate href htrack
  refine ⟨off, hstep, fun us hus now' g' localRef' cluster' hwide => ?_⟩
  obtain ⟨t, ht⟩ := Option.isSome_iff_exists.1 htrack
  exact ((twin_of_refused ha hgate ht off).exec env hus).published env hwide

end

/-! ## Four clusters in one and a half seconds -/

namespace Sample

def millis (n : ℕ) : Instant := n * 1000000

/-- The inner solver finds the aircraft, but not from what was heard at second 51. -/
def patchy : Env ℚ :=
  { env with
    solve := fun obs altM _ =>
      if obs.any fun o => decide (51 < o.tS ∧ o.tS < 51.1) then none
      else some
        { pos := ⟨48, 2, altM⟩, rmsS := 0, errEstM := 1, errGeomM := 1, iterations := 1, tTx := 0,
          residualsS := [] } }

/-- Five feeders on a line, a kilometre apart. -/
def fiveOnALine : List (Shard.Event ℚ) :=
  [0, 1, 2, 3, 4].map fun i : ℕ =>
    at' 1 1 (.addReceiver { feeder (toString i) none with ecef := ⟨1000 * i, 0, 0⟩ })

/-- A sweep with a window of a second. -/
def sweepAt (ms : ℕ) : Shard.Event ℚ :=
  .sweep (millis ms) (seconds 1) (fun _ => 0) (fun _ _ => millis ms)

/-- The five train on the sync pair as heard at seconds 0 to 40 of their clocks. -/
def trainFive : List (Shard.Event ℚ) :=
  [0, 10, 20, 30, 40].flatMap fun t =>
    ([0, 1, 2, 3, 4].map fun rx =>
      at' (t + 1) (t + 1) (.sync ⟨rx, 0⟩ (12000000 * t : ℕ) (12000000 * t : ℕ) evenFrame oddFrame
        (t + 1 : ℕ))) ++ [sweepAt (t * 1000 + 6000)]

/-- A frame as the slots `rxs` hear it. -/
def hearAll (ms : ℕ) (m : String) (rxs : List ℕ) : List (Shard.Event ℚ) :=
  rxs.map fun rx => .msg (millis ms) (fun _ => 0) (.mlat ⟨rx, 0⟩ (12000 * ms : ℕ) m 0)

/-- A first fix, then four frames of the aircraft, the last heard by all five. -/
def fourFrames : List (Shard.Event ℚ) :=
  fiveOnALine ++ trainFive ++ hearAll 50000 altitudeReply [0, 1, 2, 3] ++ [sweepAt 51000] ++
    hearAll 51050 "5d4ca7e8000001" [0, 1, 2, 3] ++ hearAll 51250 "5d4ca7e8000002" [0, 1, 2, 3] ++
    hearAll 51500 "5d4ca7e8000003" [0, 1, 2, 3, 4]

/-- The state in which the frames are about to be solved. -/
def pending : State ℚ := Shard.run patchy (Shard.boot config) fourFrames

/-- The aircraft of the frames. -/
def replier : Icao := ⟨0x4ca7e8⟩

def isRefused (s : State ℚ) : Turn ℚ → Bool
  | .solve now g localRef cluster =>
    decide (g.icao = replier) &&
      (s.attempted patchy now g localRef cluster).any fun p => p.1.gate.isSome && p.1.refused p.2
  | _ => false

def isWide (s : State ℚ) : Turn ℚ → Bool
  | .solve _ g _ cluster =>
    decide (g.icao = replier) && decide (5 ≤ (s.selectObs cluster).used.length)
  | _ => false

theorem exists_of_isRefused {s : State ℚ} {t : Turn ℚ} (h : isRefused s t = true) :
    ∃ now g localRef cluster a sol, t = .solve now g localRef cluster ∧ g.icao = replier ∧
      s.attempted patchy now g localRef cluster = some (a, sol) ∧ a.gate.isSome = true ∧
      a.refused sol = true := by
  cases t with
  | msg now heard m => cases h
  | expire now => cases h
  | take key => cases h
  | solve now g localRef cluster =>
    unfold isRefused at h
    simp only [Bool.and_eq_true, decide_eq_true_eq] at h
    obtain ⟨⟨a, sol⟩, ha, hr⟩ := (Option.any_eq_true _ _).1 h.2
    rw [Bool.and_eq_true] at hr
    exact ⟨now, g, localRef, cluster, a, sol, rfl, h.1, ha, hr.1, hr.2⟩

theorem exists_of_isWide {s : State ℚ} {t : Turn ℚ} (h : isWide s t = true) :
    ∃ now g localRef cluster, t = .solve now g localRef cluster ∧ g.icao = replier ∧
      5 ≤ (s.selectObs cluster).used.length := by
  cases t with
  | msg now heard m => cases h
  | expire now => cases h
  | take key => cases h
  | solve now g localRef cluster =>
    unfold isWide at h
    simp only [Bool.and_eq_true, decide_eq_true_eq] at h
    exact ⟨now, g, localRef, cluster, rfl, h.1, h.2⟩

/-- The turns in which the three frames are solved: the first is refused; without it the second
    publishes in the place of the third. -/
def swapsFixes (s : State ℚ) : Bool :=
  match Shard.turns patchy s [sweepAt 52050, sweepAt 52250, sweepAt 52500] with
  | [expire, take, t, u, v, w, x, y, wide] =>
    let s := Run.exec (Turn.step patchy) s [expire, take]
    let without := Run.exec (Turn.step patchy) s [u, v, w, x, y]
    let after := Run.exec (Turn.step patchy) (t.step patchy s) [u, v, w, x, y]
    isRefused s t && isWide without wide && (wide.published patchy after).isSome &&
      (wide.published patchy without).isNone
  | _ => false

theorem pending_swapsFixes : swapsFixes pending = true := by decide +kernel

theorem exists_of_swapsFixes {s : State ℚ} (h : swapsFixes s = true) : ∃ vs us t wide,
    let s := Run.exec (Turn.step patchy) s vs
    let without := Run.exec (Turn.step patchy) s us
    isRefused s t = true ∧ isWide without wide = true ∧
      (wide.published patchy (Run.exec (Turn.step patchy) (t.step patchy s) us)).isSome = true ∧
      wide.published patchy without = none := by
  unfold swapsFixes at h
  split at h
  · next expire take t u v w x y wide _ =>
    simp only [Bool.and_eq_true, Option.isNone_iff_eq_none, and_assoc] at h
    exact ⟨[expire, take], [u, v, w, x, y], t, wide, h⟩
  · cases h

/-- Turns from the pending frames are turns of a run. -/
theorem exists_exec (vs : List (Turn ℚ)) : ∃ ts, Run.exec (Turn.step patchy) pending vs =
    Run.exec (Turn.step patchy) (Shard.boot config) ts := by
  refine ⟨Shard.turns patchy (Shard.boot config) fourFrames ++ vs, ?_⟩
  rw [Run.exec_append, Shard.exec_turns]
  rfl

end Sample

/-- A refused attempt can decide what a wider frame publishes, by holding back the next gated
    attempt within its backoff. -/
theorem Shard.refusal_frees_wide : ¬ ∀ (env : Env ℚ) (c : Config ℚ) (ts : List (Turn ℚ))
    (now : Instant) (g : Group ℚ) (localRef : ℕ) (cluster : List (Arrival ℚ)) (a : Attempt ℚ)
    (sol : Option (Solution ℚ)),
    let s := Run.exec (Turn.step env) (boot c) ts
    s.attempted env now g localRef cluster = some (a, sol) → a.gate.isSome = true →
    a.refused sol = true →
      ∀ us now' g' localRef' cluster', g'.icao = g.icao →
        5 ≤ ((Run.exec (Turn.step env) s us).selectObs cluster').used.length →
        ((Turn.solve now' g' localRef' cluster').published env
            (Run.exec (Turn.step env) (s.solveCluster env now g localRef cluster).1
              us)).map Prod.snd =
          ((Turn.solve now' g' localRef' cluster').published env
            (Run.exec (Turn.step env) s us)).map Prod.snd := by
  intro h
  obtain ⟨vs, us, t, wide, href, hwide, hafter, hwithout⟩ :=
    Sample.exists_of_swapsFixes Sample.pending_swapsFixes
  obtain ⟨ts, hts⟩ := Sample.exists_exec vs
  rw [hts] at href hwide hafter hwithout
  obtain ⟨now, g, localRef, cluster, a, sol, rfl, hicao, ha, hgate, href⟩ :=
    Sample.exists_of_isRefused href
  obtain ⟨now', g', localRef', cluster', rfl, hicao', hwide⟩ := Sample.exists_of_isWide hwide
  have heq := h Sample.patchy Sample.config ts now g localRef cluster a sol ha hgate href us now'
    g' localRef' cluster' (hicao'.trans hicao.symm) hwide
  rw [hwithout, Option.map_none, Option.map_eq_none_iff] at heq
  exact Bool.false_ne_true ((congrArg Option.isSome heq).symm.trans hafter)

/-- The refused attempt of that run, and any call right after it. -/
theorem Shard.refused_leaves_no_trace_four : ∃ ts now g localRef cluster,
    let s := Run.exec (Turn.step Sample.patchy) (boot Sample.config) ts
    ∃ off, s.solveCluster Sample.patchy now g localRef cluster =
        (s.afterRefusal g.icao (s.scaledNow now) localRef off, []) ∧
      ∀ now' g' localRef' cluster', 5 ≤ (s.selectObs cluster').used.length →
        ((Turn.solve now' g' localRef' cluster').published Sample.patchy
            (s.afterRefusal g.icao (s.scaledNow now) localRef off)).map Prod.snd =
          ((Turn.solve now' g' localRef' cluster').published Sample.patchy s).map Prod.snd := by
  obtain ⟨vs, us, t, wide, href, -, -, -⟩ :=
    Sample.exists_of_swapsFixes Sample.pending_swapsFixes
  obtain ⟨ts, hts⟩ := Sample.exists_exec vs
  rw [hts] at href
  obtain ⟨now, g, localRef, cluster, a, sol, rfl, -, ha, hgate, href⟩ :=
    Sample.exists_of_isRefused href
  obtain ⟨off, hstep, hlater⟩ := refused_leaves_no_trace Sample.patchy Sample.config ts now g
    localRef cluster a sol ha hgate href
  exact ⟨ts, now, g, localRef, cluster, off, hstep, hlater [] trivial⟩

end Mlatd
