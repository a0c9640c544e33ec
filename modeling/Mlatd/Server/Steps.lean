/-
  What one step of the process changes (main.rs).

  `TaskStep` is all a step can do to one shard's task: nothing, a message more in its queue, the
  first message taken and handled, a sweep. So every state a shard task reaches is one a shard
  reaches by itself, and keeps the invariants of one (`run_wellFormed`). The rest are the reads of
  the phases, the queues and the counts after each elementary change.
-/
import Mlatd.Registry.Handles
import Mlatd.Server

namespace Mlatd

variable {F : Type} [F64 F]

omit [F64 F] in
theorem Mail.eq_addReceiver_of_msg {m : Mail F} {info : ReceiverInfo F}
    (h : m.msg = .addReceiver info) : ∃ c, m = .addReceiver info c := by
  cases m with
  | addReceiver info' c =>
    cases h
    exact ⟨c, rfl⟩
  | removeReceiver rx => cases h
  | line rx l =>
    cases l with
    | sync => cases h
    | mlat => cases h
    | clockReset => cases h
  | receiverStats rx c => cases h
  | query q =>
    cases q with
    | stats => cases h
    | syncJson => cases h
    | stateJson => cases h

namespace Server

/-! ## Elementary changes -/

section
variable (s : Server F) (c : ℕ) (φ : Phase F)

section
omit [F64 F]

theorem phase_setPhase (c' : ℕ) :
    (s.setPhase c φ).phase c' = if c' = c then (s.phase c).map fun _ => φ else s.phase c' := by
  unfold phase setPhase
  simp only [List.getElem?_modify_ite]
  by_cases h : c' = c
  · rw [if_pos h, if_pos h, h]
    cases s.conns[c]? with
    | none => rfl
    | some conn => rfl
  · rw [if_neg h, if_neg h]

theorem send_getElem? (k : ℕ) (m : Mail F) (j : ℕ) :
    (s.send k m).shards[j]? =
      if j = k then s.shards[j]?.map fun t => { t with queue := t.queue ++ [m] }
      else s.shards[j]? :=
  List.getElem?_modify_ite _ _ _ _

@[simp] theorem phase_setTicker (τ : Ticker) (c' : ℕ) :
    (s.setTicker c τ).phase c' = s.phase c' := by
  unfold phase setTicker
  simp only [List.getElem?_modify_ite]
  split
  · cases s.conns[c']? with
    | none => rfl
    | some conn => rfl
  · rfl

@[simp] theorem phase_send (k : ℕ) (m : Mail F) (c' : ℕ) : (s.send k m).phase c' = s.phase c' :=
  rfl

@[simp] theorem phase_setTask (k : ℕ) (t : ShardTask F) (c' : ℕ) :
    (s.setTask k t).phase c' = s.phase c' :=
  rfl

theorem setTask_getElem? (k : ℕ) (t : ShardTask F) (j : ℕ) :
    (s.setTask k t).shards[j]? = if j = k then s.shards[j]?.map fun _ => t else s.shards[j]? := by
  show (s.shards.set k t)[j]? = _
  rw [List.getElem?_set]
  by_cases h : j = k
  · subst h
    rw [if_pos rfl, if_pos rfl]
    by_cases hk : j < s.shards.length
    · rw [if_pos hk, List.getElem?_eq_getElem hk]
      rfl
    · rw [if_neg hk, List.getElem?_eq_none (by omega)]
      rfl
  · rw [if_neg (Ne.symm h), if_neg h]

/-- An answer to no arrival changes a ticker at most. -/
theorem answer_cases (m : Mail F) (r : Reply F) :
    (∃ info c' k rx, m = .addReceiver info c' ∧ r = .added rx ∧ s.phase c' = some (.waiting k) ∧
      s.answer m r = s.setPhase c' (.answered k rx)) ∨
    (∀ info c' k rx, m = .addReceiver info c' → r = .added rx → s.phase c' ≠ some (.waiting k)) ∧
      (s.answer m r = s ∨ ∃ c' τ, s.answer m r = s.setTicker c' τ) := by
  unfold answer
  split
  · next info c' rx =>
    split
    · next k h => exact Or.inl ⟨info, c', k, rx, rfl, rfl, h, rfl⟩
    · next h =>
      refine Or.inr ⟨?_, Or.inl rfl⟩
      rintro info' c'' k rx' hm - hk
      cases hm
      exact h k hk
  · refine Or.inr ⟨fun _ _ _ _ hm => (by cases hm), ?_⟩
    split
    · exact Or.inr ⟨_, _, rfl⟩
    · exact Or.inl rfl
  · next hno _ => exact Or.inr ⟨fun _ _ _ _ hm hr => absurd hr (hno _ _ _ hm), Or.inl rfl⟩

end

omit [F64 F] in
theorem answer_shards (m : Mail F) (r : Reply F) : (s.answer m r).shards = s.shards := by
  rcases answer_cases s m r with ⟨info, c', k, rx, -, -, -, h⟩ | ⟨-, h | ⟨c', τ, h⟩⟩
  · rw [h]
    rfl
  · rw [h]
  · rw [h]
    rfl

end

/-! ## What a step does to a shard's task -/

/-- The turn of shard `k`'s loop that an event is. -/
def turn (s : Server F) (k : ℕ) : Event F → Option (Shard.Event F)
  | .deliver j now heard =>
    if j = k then (s.shards[k]?.bind fun t => t.queue.head?).map fun m => .msg now heard m.msg
    else none
  | .sweep j now window rank clk => if j = k then some (.sweep now window rank clk) else none
  | _ => none

/-- A step of the process, seen from the task of shard `k`. -/
inductive TaskStep (env : Env F) (s : Server F) (e : Event F) (k : ℕ) (t t' : ShardTask F) : Prop
  | rest (hturn : s.turn k e = none) (h : t' = t)
  | post (hturn : s.turn k e = none) (m : Mail F) (h : t' = { t with queue := t.queue ++ [m] })
  | take (now : Instant) (heard : ℕ → F) (m : Mail F) (queue : List (Mail F))
      (hturn : s.turn k e = some (.msg now heard m.msg))
      (he : e = .deliver k now heard) (hq : t.queue = m :: queue)
      (h : t' = { state := Shard.step env t.state (.msg now heard m.msg), queue := queue })
  | sweep (now : Instant) (window : ℕ) (rank : String → ℕ) (clk : String → ℕ → Instant)
      (hturn : s.turn k e = some (.sweep now window rank clk))
      (h : t' = { t with state := Shard.step env t.state (.sweep now window rank clk) })

section
variable {env : Env F} {s : Server F}

theorem taskStep_of_eq {e : Event F} {k : ℕ} (he : s.turn k e = none) {s' : Server F}
    (h : s'.shards = s.shards) {t' : ShardTask F} (ht : s'.shards[k]? = some t') :
    ∃ t, s.shards[k]? = some t ∧ TaskStep env s e k t t' :=
  ⟨t', h ▸ ht, .rest he rfl⟩

theorem taskStep_of_send {e : Event F} {k : ℕ} (he : s.turn k e = none) {s' : Server F} {j : ℕ}
    {m : Mail F} (h : s'.shards = (s.send j m).shards) {t' : ShardTask F}
    (ht : s'.shards[k]? = some t') : ∃ t, s.shards[k]? = some t ∧ TaskStep env s e k t t' := by
  rw [h, send_getElem?] at ht
  split at ht
  · obtain ⟨t, h1, rfl⟩ := Option.map_eq_some_iff.1 ht
    exact ⟨t, h1, .post he m rfl⟩
  · exact ⟨t', ht, .rest he rfl⟩

/-- A delivery takes the head of one queue. -/
theorem deliver_cases (env : Env F) (s : Server F) (k : ℕ) (now : Instant) (heard : ℕ → F) :
    s.deliver env k now heard = s ∧ (s.shards[k]?.bind fun t => t.queue.head?) = none ∨
    ∃ t m queue, s.shards[k]? = some t ∧ t.queue = m :: queue ∧
      s.deliver env k now heard =
        (s.setTask k ⟨Shard.step env t.state (.msg now heard m.msg), queue⟩).answer m
          (Shard.handle env t.state now heard m.msg).2 := by
  unfold deliver
  cases ht : s.shards[k]? with
  | none => exact Or.inl ⟨rfl, rfl⟩
  | some t =>
    cases hq : t.queue with
    | nil =>
      simp only [hq]
      refine Or.inl ⟨trivial, ?_⟩
      rw [Option.bind_some, hq]
      rfl
    | cons m queue =>
      simp only [hq]
      exact Or.inr ⟨t, m, queue, rfl, hq, rfl⟩

/-- **What a step of the process does to a shard's task.** -/
theorem taskStep (env : Env F) (s : Server F) (e : Event F) {k : ℕ} {t' : ShardTask F}
    (ht : (step env s e).shards[k]? = some t') :
    ∃ t, s.shards[k]? = some t ∧ TaskStep env s e k t t' := by
  cases e with
  | connect info rank =>
    refine taskStep_of_eq rfl ?_ ht
    unfold step connect
    dsimp only
    split
    · rfl
    · rfl
  | sendAdd c =>
    unfold step at ht
    dsimp only at ht
    split at ht
    · exact taskStep_of_send rfl rfl ht
    · exact taskStep_of_eq rfl rfl ht
  | wake c written =>
    unfold step at ht
    dsimp only at ht
    split at ht
    · split at ht
      · exact taskStep_of_eq rfl rfl ht
      · exact taskStep_of_eq rfl rfl ht
    · exact taskStep_of_eq rfl rfl ht
    · exact taskStep_of_eq rfl rfl ht
  | say c l =>
    unfold step at ht
    dsimp only at ht
    split at ht
    · exact taskStep_of_send rfl rfl ht
    · exact taskStep_of_eq rfl rfl ht
  | probe c =>
    unfold step at ht
    dsimp only at ht
    split at ht
    · exact taskStep_of_send rfl rfl ht
    · exact taskStep_of_eq rfl rfl ht
  | stop c why =>
    unfold step at ht
    dsimp only at ht
    split at ht
    · split at ht
      · exact taskStep_of_eq rfl rfl ht
      · exact taskStep_of_eq rfl rfl ht
    · exact taskStep_of_eq rfl rfl ht
  | sendRemove c =>
    unfold step at ht
    dsimp only at ht
    split at ht
    · exact taskStep_of_send rfl rfl ht
    · exact taskStep_of_eq rfl rfl ht
    · exact taskStep_of_eq rfl rfl ht
  | giveBack c =>
    unfold step at ht
    dsimp only at ht
    split at ht
    · exact taskStep_of_eq rfl rfl ht
    · exact taskStep_of_eq rfl rfl ht
  | finish c =>
    unfold step at ht
    dsimp only at ht
    split at ht
    · exact taskStep_of_eq rfl rfl ht
    · exact taskStep_of_eq rfl rfl ht
  | deliver j now heard =>
    have hs : step env s (.deliver j now heard) = s.deliver env j now heard := rfl
    by_cases hj : j = k
    · subst hj
      rcases deliver_cases env s j now heard with ⟨h, hnone⟩ | ⟨t, m, queue, h1, hq, h⟩
      · refine taskStep_of_eq ?_ (congrArg Server.shards h) ht
        unfold turn
        dsimp only
        rw [if_pos rfl, hnone]
        rfl
      · rw [hs, h, answer_shards, setTask_getElem?, if_pos rfl, h1] at ht
        cases ht
        refine ⟨t, h1, .take now heard m queue ?_ rfl hq rfl⟩
        unfold turn
        dsimp only
        rw [if_pos rfl, h1, Option.bind_some, hq]
        rfl
    · have hturn : s.turn k (.deliver j now heard) = none := if_neg hj
      rcases deliver_cases env s j now heard with ⟨h, -⟩ | ⟨t, m, queue, h1, hq, h⟩
      · exact taskStep_of_eq hturn (congrArg Server.shards h) ht
      · rw [hs, h, answer_shards, setTask_getElem?, if_neg (Ne.symm hj)] at ht
        exact ⟨t', ht, .rest hturn rfl⟩
  | sweep j now window rank clk =>
    have hs : (step env s (.sweep j now window rank clk)).shards[k]? =
        if k = j then s.shards[k]?.map fun t =>
          { t with state := Shard.step env t.state (.sweep now window rank clk) }
        else s.shards[k]? := List.getElem?_modify_ite _ _ _ _
    rw [hs] at ht
    split at ht
    · next hk =>
      obtain ⟨t, h1, rfl⟩ := Option.map_eq_some_iff.1 ht
      exact ⟨t, h1, .sweep now window rank clk (if_pos hk.symm) rfl⟩
    · next hk => exact ⟨t', ht, .rest (if_neg (Ne.symm hk)) rfl⟩
  | ask j q => exact taskStep_of_send rfl rfl ht
  | setRate j rate => exact taskStep_of_eq rfl rfl ht

/-- **A shard task's state takes the turns of its own loop, and nothing else.** -/
theorem TaskStep.state {e : Event F} {k : ℕ} {t t' : ShardTask F}
    (h : TaskStep env s e k t t') :
    t'.state = (s.turn k e).elim t.state (Shard.step env t.state) := by
  cases h with
  | rest hturn h =>
    rw [hturn, h]
    rfl
  | post hturn m h =>
    rw [hturn, h]
    rfl
  | take now heard m queue hturn he hq h =>
    rw [hturn, h]
    rfl
  | sweep now window rank clk hturn h =>
    rw [hturn, h]
    rfl

end

/-! ## Every shard is well formed -/

/-- Every shard task's state is well formed. -/
def WellFormed (s : Server F) : Prop :=
  ∀ (k : ℕ) (t : ShardTask F), s.shards[k]? = some t → t.state.WellFormed

theorem step_wellFormed (env : Env F) (s : Server F) (e : Event F) (wf : s.WellFormed) :
    (step env s e).WellFormed := by
  intro k t' ht
  obtain ⟨t, h1, h2⟩ := taskStep env s e ht
  rw [h2.state]
  cases s.turn k e with
  | none => exact wf k t h1
  | some e' => exact State.step_wellFormed env t.state e' (wf k t h1)

theorem boot_wellFormed (configs : List (Shard.Config F)) (baseDeg : F) (cap : ℕ) :
    (boot configs baseDeg cap).WellFormed := by
  intro k t ht
  obtain ⟨c, -, rfl⟩ := List.mem_map.1 (List.mem_of_getElem? ht)
  exact State.boot_wellFormed c

theorem run_wellFormed (env : Env F) (configs : List (Shard.Config F)) (baseDeg : F) (cap : ℕ)
    (es : List (Event F)) : (run env (boot configs baseDeg cap) es).WellFormed :=
  Run.invariant (step_wellFormed env) (boot_wellFormed configs baseDeg cap) es

end Server

end Mlatd
