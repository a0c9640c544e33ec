/-
  What a connection takes and gives back (main.rs, handle_client; shard.rs, shard_for).

  A connection takes two things at two moments: a count at the router, when it claims a shard, and
  a slot, when the shard answers its arrival. `Kept` is what holds in between: the count is the
  number of claims, an arrival in a queue has its connection waiting for it, and a live slot is
  owed back by a connection or named by a removal in the queue. Each kind of change keeps it
  (`step_kept`).

  A handle is the slot and a generation of 32 bits. `Numbered` numbers the connections by the
  issues of their slots, so that two of them have one handle only after the generation has come
  round (`holder_unique`); a slot that is reissued `2^32` times while its first connection stays
  has two (`reissues_come_round`).
-/
import Mlatd.Registry.Identity
import Mlatd.Server.Steps
import Mlatd.Sample

namespace Mlatd

variable {F : Type} [F64 F]

/-- The handle whose removal the connection has still to send. -/
def Phase.owes : Phase F → Option (ℕ × RxRef)
  | .answered shard rx | .leaving shard rx => rx.map fun r => (shard, r)
  | .running shard rx => some (shard, rx)
  | .claimed _ _ | .waiting _ | .removed _ _ | .released _ _ | .finished => none

omit [F64 F] in
theorem Phase.handle_of_owes {φ : Phase F} {p : ℕ × RxRef} (h : φ.owes = some p) :
    φ.handle = some p := by
  cases φ with
  | answered shard rx => exact h
  | leaving shard rx => exact h
  | running shard rx => exact h
  | _ => cases h

namespace Router

/-- A claim counts one more at the shard it answers. -/
theorem shardFor_receivers {r : Router F} {p : F × F} {rank : ℕ → ℕ} {k : ℕ} {h : ShardHandle}
    (hk : (r.shardFor p rank).1.shards[k]? = some h) :
    ∃ h0, r.shards[k]? = some h0 ∧
      h.receivers = h0.receivers + if (r.shardFor p rank).2 = k then 1 else 0 := by
  have hget : (r.shardFor p rank).1.shards[k]? =
      if k = (r.shardFor p rank).2 then r.shards[k]?.map ShardHandle.fetchAdd
      else r.shards[k]? := List.getElem?_modify_ite _ _ _ _
  rw [hget] at hk
  split at hk
  · next hc =>
    obtain ⟨h0, h1, rfl⟩ := Option.map_eq_some_iff.1 hk
    refine ⟨h0, h1, ?_⟩
    rw [if_pos hc.symm]
    rfl
  · next hc => exact ⟨h, hk, by rw [if_neg (Ne.symm hc), Nat.add_zero]⟩

omit [F64 F] in
/-- A release counts one less where something was counted. -/
theorem release_receivers {r : Router F} {k j : ℕ} {h : ShardHandle}
    (hj : (r.release k).shards[j]? = some h) :
    ∃ h0, r.shards[j]? = some h0 ∧
      (j ≠ k ∧ h.receivers = h0.receivers ∨
        j = k ∧ (0 < h0.receivers → h.receivers + 1 = h0.receivers)) := by
  have hget : (r.release k).shards[j]? =
      if j = k then r.shards[j]?.map ShardHandle.fetchSub else r.shards[j]? :=
    List.getElem?_modify_ite _ _ _ _
  rw [hget] at hj
  split at hj
  · next hc =>
    obtain ⟨h0, h1, rfl⟩ := Option.map_eq_some_iff.1 hj
    refine ⟨h0, h1, Or.inr ⟨hc, fun hpos => ?_⟩⟩
    unfold ShardHandle.fetchSub
    dsimp only
    rw [if_neg (by omega)]
    omega
  · next hc => exact ⟨h, hj, Or.inl ⟨hc, rfl⟩⟩

end Router

namespace Server

/-- How many connections have claimed shard `k` and not given it back. -/
def claims (s : Server F) (k : ℕ) : ℕ := s.conns.countP fun conn => conn.phase.claims k

/-- Connection `c`, not finished, has the handle `r` of shard `k`. -/
def Holds (s : Server F) (c k : ℕ) (r : RxRef) : Prop :=
  (s.phase c).bind Phase.handle = some (k, r)

/-- Connection `c` has still to send the removal of `r`. -/
def Owes (s : Server F) (c k : ℕ) (r : RxRef) : Prop := (s.phase c).bind Phase.owes = some (k, r)

omit [F64 F] in
theorem Owes.holds {s : Server F} {c k : ℕ} {r : RxRef} (h : s.Owes c k r) : s.Holds c k r := by
  obtain ⟨φ, hφ, h1⟩ := Option.bind_eq_some_iff.1 h
  exact Option.bind_eq_some_iff.2 ⟨φ, hφ, Phase.handle_of_owes h1⟩

omit [F64 F] in
theorem claims_setPhase {s : Server F} {c : ℕ} {φ : Phase F} (h : s.phase c = some φ)
    (φ' : Phase F) (k : ℕ) :
    (s.setPhase c φ').claims k + (if φ.claims k then 1 else 0) =
      s.claims k + if φ'.claims k then 1 else 0 := by
  obtain ⟨conn, hconn, rfl⟩ := Option.map_eq_some_iff.1 h
  exact List.countP_modify (fun conn : Conn F => conn.phase.claims k) s.conns _ hconn

omit [F64 F] in
theorem claims_setTicker (s : Server F) (c : ℕ) (τ : Ticker) (k : ℕ) :
    (s.setTicker c τ).claims k = s.claims k := by
  cases h : s.conns[c]? with
  | none =>
    unfold claims setTicker
    rw [List.modify_eq_self (List.getElem?_eq_none_iff.1 h)]
  | some conn =>
    have h1 := List.countP_modify (fun conn : Conn F => conn.phase.claims k) s.conns
      (fun conn => { conn with ticker := τ }) h
    exact Nat.add_right_cancel h1

/-! ## What holds between the two -/

structure Kept (s : Server F) : Prop where
  counts : ∀ (k : ℕ) (h : ShardHandle), s.router.shards[k]? = some h → h.receivers = s.claims k
  waits : ∀ (k : ℕ) (t : ShardTask F) (info : ReceiverInfo F) (c : ℕ),
    s.shards[k]? = some t → .addReceiver info c ∈ t.queue → s.phase c = some (.waiting k)
  once : ∀ (k : ℕ) (t : ShardTask F), s.shards[k]? = some t →
    (t.queue.filterMap Mail.adder).Nodup
  held : ∀ (k : ℕ) (t : ShardTask F) (i : ℕ), s.shards[k]? = some t →
    t.state.isAlive i = true →
    (∃ c, s.Owes c k (Shard.holder t.state i)) ∨ .removeReceiver (Shard.holder t.state i) ∈ t.queue

omit [F64 F] in
/-- A change of connections and counts alone: connections that wait go on waiting, and what one
    owed it still owes, or the removal is sent. -/
theorem Kept.frame {s s' : Server F} (h : Kept s) (hs : s'.shards = s.shards)
    (hcounts : ∀ (k : ℕ) (h : ShardHandle), s'.router.shards[k]? = some h →
      h.receivers = s'.claims k)
    (hwaits : ∀ c k, s.phase c = some (.waiting k) → s'.phase c = some (.waiting k))
    (howes : ∀ c k r t, s.Owes c k r → s.shards[k]? = some t →
      s'.Owes c k r ∨ .removeReceiver r ∈ t.queue) : Kept s' where
  counts := hcounts
  waits k t info c ht hm := hwaits c k (h.waits k t info c (hs ▸ ht) hm)
  once k t ht := h.once k t (hs ▸ ht)
  held k t i ht ha := by
    rw [hs] at ht
    rcases h.held k t i ht ha with ⟨c, hc⟩ | hm
    · exact (howes c k _ t hc ht).imp_left fun h1 => ⟨c, h1⟩
    · exact Or.inr hm

section
omit [F64 F]

/-- A message more in a queue; an arrival's connection waits, and has no other in the queue. -/
theorem Kept.send {s : Server F} (h : Kept s) (k : ℕ) (m : Mail F)
    (hm : ∀ c, m.adder = some c → s.phase c = some (.waiting k) ∧
      ∀ t, s.shards[k]? = some t → c ∉ t.queue.filterMap Mail.adder) : Kept (s.send k m) := by
  have hget : ∀ (j : ℕ) (t' : ShardTask F), (s.send k m).shards[j]? = some t' →
      ∃ t, s.shards[j]? = some t ∧ t'.state = t.state ∧
        (t'.queue = t.queue ∨ j = k ∧ t'.queue = t.queue ++ [m]) := by
    intro j t' ht'
    rw [send_getElem?] at ht'
    split at ht'
    · next hj =>
      obtain ⟨t, ht, rfl⟩ := Option.map_eq_some_iff.1 ht'
      exact ⟨t, ht, rfl, Or.inr ⟨hj, rfl⟩⟩
    · exact ⟨t', ht', rfl, Or.inl rfl⟩
  refine { counts := h.counts, waits := ?_, once := ?_, held := ?_ }
  · intro j t' info c ht' hmem
    obtain ⟨t, ht, -, hq | ⟨rfl, hq⟩⟩ := hget j t' ht'
    · exact h.waits j t info c ht (hq ▸ hmem)
    · rw [hq, List.mem_append, List.mem_singleton] at hmem
      rcases hmem with hmem | rfl
      · exact h.waits j t info c ht hmem
      · exact (hm c rfl).1
  · intro j t' ht'
    obtain ⟨t, ht, -, hq | ⟨rfl, hq⟩⟩ := hget j t' ht'
    · rw [hq]
      exact h.once j t ht
    · rw [hq, List.filterMap_append]
      cases ha : m.adder with
      | none =>
        have hnil : [m].filterMap Mail.adder = [] := by simp [ha]
        rw [hnil, List.append_nil]
        exact h.once j t ht
      | some c =>
        have hone : [m].filterMap Mail.adder = [c] := by simp [ha]
        rw [hone, List.nodup_append]
        refine ⟨h.once j t ht, List.nodup_singleton c, fun a hmem b hb => ?_⟩
        rintro rfl
        rw [List.mem_singleton.1 hb] at hmem
        exact (hm c ha).2 t ht hmem
  · intro j t' i ht' ha
    obtain ⟨t, ht, hst, hq⟩ := hget j t' ht'
    rw [hst] at ha ⊢
    rcases h.held j t i ht ha with hc | hmem
    · exact Or.inl hc
    · refine Or.inr ?_
      rcases hq with hq | ⟨-, hq⟩
      · rw [hq]
        exact hmem
      · rw [hq]
        exact List.mem_append_left _ hmem

theorem Kept.setTicker {s : Server F} (h : Kept s) (c : ℕ) (τ : Ticker) :
    Kept (s.setTicker c τ) := by
  refine h.frame rfl (fun k hd hk => ?_) (fun c' k hw => ?_) (fun c' k r t ho _ => Or.inl ?_)
  · rw [claims_setTicker]
    exact h.counts k hd hk
  · rw [phase_setTicker]
    exact hw
  · unfold Owes
    rw [phase_setTicker]
    exact ho

/-- A connection that does not wait moves on: its claim as it was, and what it owed still owed or
    the removal sent. -/
theorem Kept.setPhase {s : Server F} (h : Kept s) {c : ℕ} {φ φ' : Phase F}
    (hc : s.phase c = some φ) (hclaims : ∀ k, φ'.claims k = φ.claims k)
    (hwait : ∀ k, φ ≠ .waiting k)
    (howes : ∀ k r t, φ.owes = some (k, r) → s.shards[k]? = some t →
      φ'.owes = some (k, r) ∨ .removeReceiver r ∈ t.queue) : Kept (s.setPhase c φ') := by
  refine h.frame rfl (fun k hd hk => ?_) (fun c' k hw => ?_) (fun c' k r t ho ht => ?_)
  · have h1 := claims_setPhase hc φ' k
    rw [hclaims, Nat.add_right_cancel_iff] at h1
    rw [h1]
    exact h.counts k hd hk
  · rw [phase_setPhase]
    split
    · next hcc =>
      rw [hcc, hc] at hw
      exact absurd (Option.some.inj hw) (hwait k)
    · exact hw
  · unfold Owes at ho ⊢
    rw [phase_setPhase]
    split
    · next hcc =>
      rw [hcc, hc] at ho
      rw [hc]
      exact howes k r t ho ht
    · exact Or.inl ho

end

/-! ## A delivery -/

/-- The connection whose arrival the event hands to shard `k`, and the handle it is given. -/
def Admits (s : Server F) (e : Event F) (c k : ℕ) (rx : Option RxRef) : Prop :=
  ∃ now heard t info queue, e = .deliver k now heard ∧ s.shards[k]? = some t ∧
    t.queue = .addReceiver info c :: queue ∧
    rx = Shard.issued t.state (.msg now heard (.addReceiver info))

/-- **What a delivery does to the connections**: an arrival's connection has its answer, and
    otherwise a ticker changes at most. -/
theorem deliver_spec (env : Env F) {s : Server F} (h : Kept s) {k : ℕ} {now : Instant}
    {heard : ℕ → F} {t : ShardTask F} {m : Mail F} {queue : List (Mail F)}
    (ht : s.shards[k]? = some t) (hq : t.queue = m :: queue) :
    let s' := s.setTask k ⟨Shard.step env t.state (.msg now heard m.msg), queue⟩
    (∃ info c, m = .addReceiver info c ∧ s.phase c = some (.waiting k) ∧
      step env s (.deliver k now heard) =
        s'.setPhase c (.answered k (Shard.issued t.state (.msg now heard m.msg)))) ∨
    (∀ info c, m ≠ .addReceiver info c) ∧
      (step env s (.deliver k now heard) = s' ∨
        ∃ c τ, step env s (.deliver k now heard) = s'.setTicker c τ) := by
  intro s'
  have hstep : step env s (.deliver k now heard) =
      s'.answer m (Shard.handle env t.state now heard m.msg).2 := by
    show s.deliver env k now heard = _
    unfold deliver
    simp only [ht, hq]
    rfl
  rw [hstep]
  by_cases hm : ∃ info c, m = .addReceiver info c
  · obtain ⟨info, c, rfl⟩ := hm
    have hw := h.waits k t info c ht (by rw [hq]; exact List.mem_cons_self)
    refine Or.inl ⟨info, c, rfl, hw, ?_⟩
    have hw' : s'.phase c = some (.waiting k) := hw
    unfold answer Shard.handle Mail.msg
    simp only [hw']
    rfl
  · refine Or.inr ⟨fun info c h1 => hm ⟨info, c, h1⟩, ?_⟩
    rcases answer_cases s' m (Shard.handle env t.state now heard m.msg).2 with
      ⟨info, c, k', rx, h1, -⟩ | ⟨-, h1⟩
    · exact absurd ⟨info, c, h1⟩ hm
    · exact h1

theorem arrival_of_issued {s : State F} {now : Instant} {heard : ℕ → F} {msg : ShardMsg F}
    {r : RxRef} (h : Shard.issued s (.msg now heard msg) = some r) :
    ∃ info, msg = .addReceiver info := by
  cases msg with
  | addReceiver info => exact ⟨info, rfl⟩
  | _ => cases h

/-- After shard `k` has taken a message, a live slot is owed or its removal queued as before, or
    the message has just issued it. -/
theorem held_of_take (env : Env F) {s : Server F} (wf : s.WellFormed) (h : Kept s) {k : ℕ}
    {now : Instant} {heard : ℕ → F} {t : ShardTask F} {m : Mail F} {queue : List (Mail F)}
    (ht : s.shards[k]? = some t) (hq : t.queue = m :: queue) {j i : ℕ} {t' : ShardTask F}
    (ht' : (s.setTask k ⟨Shard.step env t.state (.msg now heard m.msg), queue⟩).shards[j]? =
      some t') (ha : t'.state.isAlive i = true) :
    (∃ c, s.Owes c j (Shard.holder t'.state i)) ∨
      .removeReceiver (Shard.holder t'.state i) ∈ t'.queue ∨
      j = k ∧ Shard.issued t.state (.msg now heard m.msg) = some (Shard.holder t'.state i) := by
  rw [setTask_getElem?] at ht'
  split at ht'
  · next hj =>
    subst hj
    rw [ht] at ht'
    cases ht'
    cases Shard.slotStep env (wf j t ht) (.msg now heard m.msg) i with
    | issue r hr hi hlen halive hgen hg hfree =>
      refine Or.inr (Or.inr ⟨rfl, ?_⟩)
      rw [hr]
      subst hi
      exact congrArg some (congrArg (RxRef.mk r.idx) hgen.symm)
    | keep hno hlen hgen halive hends =>
      have hb : t.state.isAlive i = true := halive.symm.trans ha
      have hh : Shard.holder (Shard.step env t.state (.msg now heard m.msg)) i =
          Shard.holder t.state i := congrArg (RxRef.mk i) hgen
      show (∃ c, s.Owes c j (Shard.holder (Shard.step env t.state _) i)) ∨
        .removeReceiver (Shard.holder (Shard.step env t.state _) i) ∈ queue ∨ _
      rw [hh]
      rcases h.held j t i ht hb with hc | hmem
      · exact Or.inl hc
      · -- the removal in the queue is not the message taken: that one would have freed the slot
        rw [hq, List.mem_cons] at hmem
        rcases hmem with rfl | hmem
        · exact absurd rfl (hends hb)
        · exact Or.inr (Or.inl hmem)
    | free hno hlen hgen hbefore hafter hends =>
      have ha' : (Shard.step env t.state (.msg now heard m.msg)).isAlive i = true := ha
      rw [hafter] at ha'
      cases ha'
  · rcases h.held j t' i ht' ha with hc | hmem
    · exact Or.inl hc
    · exact Or.inr (Or.inl hmem)

omit [F64 F] in
theorem queue_of_take {s : Server F} {k : ℕ} {t : ShardTask F} {m : Mail F}
    {queue : List (Mail F)} (ht : s.shards[k]? = some t) (hq : t.queue = m :: queue)
    (state : State F) {j : ℕ} {t' : ShardTask F}
    (ht' : (s.setTask k ⟨state, queue⟩).shards[j]? = some t') :
    ∃ t0, s.shards[j]? = some t0 ∧
      (t'.queue = t0.queue ∧ j ≠ k ∨ j = k ∧ t0.queue = m :: t'.queue) := by
  rw [setTask_getElem?] at ht'
  split at ht'
  · next hj =>
    subst hj
    rw [ht] at ht'
    cases ht'
    exact ⟨t, ht, Or.inr ⟨rfl, hq⟩⟩
  · next hj => exact ⟨t', ht', Or.inl ⟨rfl, hj⟩⟩

theorem deliver_kept (env : Env F) {s : Server F} (wf : s.WellFormed) (h : Kept s) (k : ℕ)
    (now : Instant) (heard : ℕ → F) : Kept (step env s (.deliver k now heard)) := by
  rcases deliver_cases env s k now heard with ⟨h1, -⟩ | ⟨t, m, queue, ht, hq, -⟩
  · show Kept (s.deliver env k now heard)
    rw [h1]
    exact h
  have honce : ∀ (j : ℕ) (t' : ShardTask F),
      (s.setTask k ⟨Shard.step env t.state (.msg now heard m.msg), queue⟩).shards[j]? =
        some t' → (t'.queue.filterMap Mail.adder).Nodup := by
    intro j t' ht'
    obtain ⟨t0, ht0, ⟨h1, -⟩ | ⟨-, h1⟩⟩ := queue_of_take ht hq _ ht'
    · rw [h1]
      exact h.once j t0 ht0
    · have h2 := h.once j t0 ht0
      rw [h1] at h2
      exact h2.sublist ((List.sublist_cons_self m t'.queue).filterMap _)
  rcases deliver_spec env h ht hq with ⟨info, c, rfl, hw, hstep⟩ | ⟨hno, hstep⟩
  · rw [hstep]
    refine { counts := ?_, waits := ?_, once := honce, held := ?_ }
    · intro j hd hj
      have h1 := claims_setPhase hw
        (.answered k (Shard.issued t.state (.msg now heard (Mail.msg (.addReceiver info c))))) j
      exact (h.counts j hd hj).trans (Nat.add_right_cancel h1).symm
    · intro j t' info' c' ht' hmem
      obtain ⟨t0, ht0, hqueue⟩ := queue_of_take ht hq _ ht'
      have hmem0 : .addReceiver info' c' ∈ t0.queue := by
        rcases hqueue with ⟨h1, -⟩ | ⟨-, h1⟩
        · rw [← h1]
          exact hmem
        · rw [h1]
          exact List.mem_cons_of_mem _ hmem
      have hw' := h.waits j t0 info' c' ht0 hmem0
      rw [phase_setPhase, phase_setTask, phase_setTask]
      split
      · -- the connection answered has no second arrival anywhere
        next hcc =>
        exfalso
        rw [hcc, hw] at hw'
        cases hw'
        rcases hqueue with ⟨-, hne⟩ | ⟨-, h1⟩
        · exact hne rfl
        · have h2 := h.once k t0 ht0
          have h3 : (Mail.addReceiver info c :: t'.queue).filterMap Mail.adder =
            c :: t'.queue.filterMap Mail.adder := rfl
          rw [h1, h3, List.nodup_cons] at h2
          refine h2.1 (List.mem_filterMap.2 ⟨_, hmem, ?_⟩)
          rw [hcc]
          rfl
      · exact hw'
    · intro j t' i ht' ha
      rcases held_of_take env wf h ht hq ht' ha with ⟨c', hc'⟩ | hmem | ⟨rfl, hr⟩
      · refine Or.inl ⟨c', ?_⟩
        have hne : c' ≠ c := by
          rintro rfl
          unfold Owes at hc'
          rw [hw] at hc'
          cases hc'
        unfold Owes
        rw [phase_setPhase, if_neg hne]
        exact hc'
      · exact Or.inr hmem
      · refine Or.inl ⟨c, ?_⟩
        unfold Owes
        rw [phase_setPhase, if_pos rfl, phase_setTask, hw, hr]
        rfl
  · have hkept : Kept (s.setTask k ⟨Shard.step env t.state (.msg now heard m.msg), queue⟩) := by
      refine { counts := h.counts, waits := ?_, once := honce, held := ?_ }
      · intro j t' info c ht' hmem
        obtain ⟨t0, ht0, ⟨h1, -⟩ | ⟨-, h1⟩⟩ := queue_of_take ht hq _ ht'
        · exact h.waits j t0 info c ht0 (h1 ▸ hmem)
        · exact h.waits j t0 info c ht0 (by rw [h1]; exact List.mem_cons_of_mem m hmem)
      · intro j t' i ht' ha
        rcases held_of_take env wf h ht hq ht' ha with hc | hmem | ⟨-, hr⟩
        · exact Or.inl hc
        · exact Or.inr hmem
        · obtain ⟨info, hinfo⟩ := arrival_of_issued hr
          obtain ⟨c, hc⟩ := Mail.eq_addReceiver_of_msg hinfo
          exact absurd hc (hno info c)
    rcases hstep with hstep | ⟨c, τ, hstep⟩
    · rw [hstep]
      exact hkept
    · rw [hstep]
      exact hkept.setTicker c τ

/-! ## Every step -/

theorem sweep_kept (env : Env F) {s : Server F} (h : Kept s) (k : ℕ)
    (now : Instant) (window : ℕ) (rank : String → ℕ) (clk : String → ℕ → Instant) :
    Kept (step env s (.sweep k now window rank clk)) := by
  have hget : ∀ (j : ℕ) (t' : ShardTask F),
      (step env s (.sweep k now window rank clk)).shards[j]? = some t' →
      ∃ t, s.shards[j]? = some t ∧ t'.queue = t.queue ∧
        ∀ i, t'.state.isAlive i = t.state.isAlive i ∧
          Shard.holder t'.state i = Shard.holder t.state i := by
    intro j t' ht'
    have hs : (step env s (.sweep k now window rank clk)).shards[j]? =
        if j = k then s.shards[j]?.map fun t =>
          { t with state := (t.state.sweep env now window rank clk).1 }
        else s.shards[j]? := List.getElem?_modify_ite _ _ _ _
    rw [hs] at ht'
    split at ht'
    · obtain ⟨t, ht, rfl⟩ := Option.map_eq_some_iff.1 ht'
      have hslots := State.step_sameSlots env t.state (e := .sweep now window rank clk) rfl
      refine ⟨t, ht, rfl, fun i => ⟨hslots.isAlive i, ?_⟩⟩
      unfold Shard.holder State.gen
      exact congrArg (fun g => RxRef.mk i (List.getD g i 0)) hslots.gens
    · exact ⟨t', ht', rfl, fun i => ⟨rfl, rfl⟩⟩
  refine { counts := h.counts, waits := ?_, once := ?_, held := ?_ }
  · intro j t' info c ht' hmem
    obtain ⟨t, ht, hq, -⟩ := hget j t' ht'
    exact h.waits j t info c ht (hq ▸ hmem)
  · intro j t' ht'
    obtain ⟨t, ht, hq, -⟩ := hget j t' ht'
    rw [hq]
    exact h.once j t ht
  · intro j t' i ht' ha
    obtain ⟨t, ht, hq, hslots⟩ := hget j t' ht'
    rw [(hslots i).2, hq]
    exact h.held j t i ht ((hslots i).1 ▸ ha)

/-- A handshake counts its connection where it claims. -/
theorem connect_kept {s : Server F} (h : Kept s) (info : ReceiverInfo F) (rank : ℕ → ℕ) :
    Kept (s.connect info rank) := by
  unfold connect
  split
  · have hphase : ∀ (s' : Server F) (conn : Conn F), s'.conns = s.conns ++ [conn] →
        ∀ c φ, s.phase c = some φ → s'.phase c = some φ := by
      intro s' conn hconns c φ hφ
      obtain ⟨conn', hc, rfl⟩ := Option.map_eq_some_iff.1 hφ
      unfold phase
      rw [hconns, List.getElem?_append_left (List.getElem?_eq_some_iff.1 hc).1, hc]
      rfl
    refine h.frame rfl ?_ (fun c k hw => hphase _ _ rfl c _ hw) (fun c k r t ho _ => Or.inl ?_)
    · intro k hd hk
      obtain ⟨h0, h1, h2⟩ := Router.shardFor_receivers hk
      unfold claims
      dsimp only
      rw [List.countP_append, List.countP_singleton, h2, h.counts k h0 h1]
      unfold claims Phase.claims
      simp only [decide_eq_true_eq]
    · obtain ⟨φ, hφ, h1⟩ := Option.bind_eq_some_iff.1 ho
      exact Option.bind_eq_some_iff.2 ⟨φ, hphase _ _ rfl c φ hφ, h1⟩
  · exact h

omit [F64 F] in
theorem sendAdd_kept {s : Server F} (h : Kept s) {c k : ℕ} {info : ReceiverInfo F}
    (hc : s.phase c = some (.claimed k info)) :
    Kept ((s.send k (.addReceiver info c)).setPhase c (.waiting k)) := by
  have hwaiting : Kept (s.setPhase c (.waiting k)) := by
    refine h.setPhase hc (fun _ => rfl) (fun k' h1 => by cases h1) fun k' r t h1 => ?_
    cases h1
  refine hwaiting.send k (.addReceiver info c) fun c' hc' => ?_
  cases hc'
  refine ⟨?_, fun t ht hmem => ?_⟩
  · rw [phase_setPhase, if_pos rfl, hc]
    rfl
  · -- a connection that has just claimed has no arrival in the queue
    obtain ⟨m, hm, ha⟩ := List.mem_filterMap.1 hmem
    cases m with
    | addReceiver info' c' =>
      cases ha
      have hw := h.waits k t info' c ht hm
      rw [hc] at hw
      cases hw
    | _ => cases ha

omit [F64 F] in
theorem sendRemove_kept {s : Server F} (h : Kept s) {c k : ℕ} {rx : RxRef}
    (hc : s.phase c = some (.leaving k (some rx))) :
    Kept ((s.send k (.removeReceiver rx)).setPhase c (.removed k (some rx))) := by
  have hsent : Kept (s.send k (.removeReceiver rx)) :=
    h.send k (.removeReceiver rx) fun c' hc' => by cases hc'
  have hc' : (s.send k (.removeReceiver rx)).phase c = some (.leaving k (some rx)) := hc
  refine hsent.setPhase hc' (fun _ => rfl) (fun k' h1 => by cases h1) fun k' r t h1 ht => ?_
  cases h1
  refine Or.inr ?_
  rw [send_getElem?, if_pos rfl] at ht
  obtain ⟨t0, -, rfl⟩ := Option.map_eq_some_iff.1 ht
  exact List.mem_append_right _ (List.mem_singleton.2 rfl)

omit [F64 F] in
theorem giveBack_kept {s : Server F} (h : Kept s) {c k : ℕ} {rx : Option RxRef}
    (hc : s.phase c = some (.removed k rx)) :
    Kept (setPhase { s with router := s.router.release k } c (.released k rx)) := by
  refine h.frame rfl (fun j hd hj => ?_) (fun c' j hw => ?_) (fun c' j r t ho _ => Or.inl ?_)
  · obtain ⟨h0, h1, h2⟩ := Router.release_receivers hj
    have h3 := claims_setPhase hc (.released k rx) j
    have h4 := h.counts j h0 h1
    show hd.receivers = (s.setPhase c (.released k rx)).claims j
    rcases h2 with ⟨hne, h2⟩ | ⟨rfl, h2⟩
    · simp [Phase.claims, Ne.symm hne] at h3
      omega
    · simp [Phase.claims] at h3
      have h5 := h2 (by omega)
      omega
  · rw [phase_setPhase]
    split
    · next hcc =>
      rw [hcc, hc] at hw
      cases hw
    · exact hw
  · unfold Owes at ho ⊢
    rw [phase_setPhase]
    split
    · next hcc =>
      rw [hcc, hc] at ho
      cases ho
    · exact ho

/-- **Every step keeps it.** -/
theorem step_kept (env : Env F) {s : Server F} (wf : s.WellFormed) (h : Kept s) (e : Event F) :
    Kept (step env s e) := by
  cases e with
  | connect info rank => exact connect_kept h info rank
  | sendAdd c =>
    unfold step
    dsimp only
    split
    · next k info hc => exact sendAdd_kept h hc
    · exact h
  | wake c written =>
    unfold step
    dsimp only
    split
    · next k rx hc =>
      split
      · have hc' : (s.setTicker c .resting).phase c = some (.answered k (some rx)) := by
          rw [phase_setTicker, hc]
        exact (h.setTicker c .resting).setPhase hc' (fun _ => rfl) (fun _ h1 => by cases h1)
          fun _ _ _ h1 _ => Or.inl h1
      · exact h.setPhase hc (fun _ => rfl) (fun _ h1 => by cases h1) fun _ _ _ h1 _ => Or.inl h1
    · next k hc =>
      exact h.setPhase hc (fun _ => rfl) (fun _ h1 => by cases h1) fun _ _ _ h1 _ => Or.inl h1
    · exact h
  | say c l =>
    unfold step
    dsimp only
    split
    · refine h.send _ _ fun c' hc' => by cases hc'
    · exact h
  | probe c =>
    unfold step
    dsimp only
    split
    · exact (h.send _ _ fun c' hc' => by cases hc').setTicker _ _
    · exact h
  | stop c why =>
    unfold step
    dsimp only
    split
    · next k rx hc =>
      split
      · exact h.setPhase hc (fun _ => rfl) (fun _ h1 => by cases h1) fun _ _ _ h1 _ => Or.inl h1
      · exact h
    · exact h
  | sendRemove c =>
    unfold step
    dsimp only
    split
    · next k rx hc => exact sendRemove_kept h hc
    · next k hc =>
      exact h.setPhase hc (fun _ => rfl) (fun _ h1 => by cases h1) fun _ _ _ h1 _ => Or.inl h1
    · exact h
  | giveBack c =>
    unfold step
    dsimp only
    split
    · next k rx hc => exact giveBack_kept h hc
    · exact h
  | finish c =>
    unfold step
    dsimp only
    split
    · next k rx hc =>
      have hc' : (s.setTicker c .off).phase c = some (.released k rx) := by
        rw [phase_setTicker, hc]
      exact (h.setTicker c .off).setPhase hc' (fun _ => rfl) (fun _ h1 => by cases h1)
        fun _ _ _ h1 _ => Or.inl h1
    · exact h
  | deliver k now heard => exact deliver_kept env wf h k now heard
  | sweep k now window rank clk => exact sweep_kept env h k now window rank clk
  | ask k q => exact h.send k _ fun c' hc' => by cases hc'
  | setRate k rate =>
    refine h.frame rfl (fun j hd hj => ?_) (fun c' j hw => hw) (fun c' j r t ho _ => Or.inl ho)
    have hget : (step env s (.setRate k rate)).router.shards[j]? =
        if j = k then s.router.shards[j]?.map fun h => { h with rate := rate }
        else s.router.shards[j]? := List.getElem?_modify_ite _ _ _ _
    rw [hget] at hj
    split at hj
    · obtain ⟨h0, h1, rfl⟩ := Option.map_eq_some_iff.1 hj
      exact h.counts j h0 h1
    · exact h.counts j hd hj

omit [F64 F] in
theorem boot_kept (configs : List (Shard.Config F)) (baseDeg : F) (cap : ℕ) :
    Kept (boot configs baseDeg cap) := by
  have htask : ∀ (k : ℕ) (t : ShardTask F), (boot configs baseDeg cap).shards[k]? = some t →
      t.queue = [] ∧ ∀ i, t.state.isAlive i = false := by
    intro k t ht
    obtain ⟨c, -, rfl⟩ := List.mem_map.1 (List.mem_of_getElem? ht)
    exact ⟨rfl, fun i => by simp [Shard.boot, State.new, State.isAlive]⟩
  refine { counts := ?_, waits := ?_, once := ?_, held := ?_ }
  · intro k h hk
    obtain ⟨c, -, rfl⟩ := List.mem_map.1 (List.mem_of_getElem? hk)
    rfl
  · intro k t info c ht hmem
    rw [(htask k t ht).1] at hmem
    cases hmem
  · intro k t ht
    rw [(htask k t ht).1]
    exact List.nodup_nil
  · intro k t i ht ha
    rw [(htask k t ht).2] at ha
    cases ha

theorem run_kept (env : Env F) (configs : List (Shard.Config F)) (baseDeg : F) (cap : ℕ)
    (es : List (Event F)) : Kept (run env (boot configs baseDeg cap) es) := by
  have hstep : ∀ s e, s.WellFormed ∧ Kept s → (step env s e).WellFormed ∧ Kept (step env s e) :=
    fun s e h => ⟨step_wellFormed env s e h.1, step_kept env h.1 h.2 e⟩
  exact (Run.invariant hstep
    ⟨boot_wellFormed configs baseDeg cap, boot_kept configs baseDeg cap⟩ es).2

/-! ## One holder for each handle -/

/-- The event issues slot `i` of shard `k`. -/
def issues (k i : ℕ) (s : Server F) (e : Event F) : Bool :=
  s.shards[k]?.any fun t => (s.turn k e).any fun e' =>
    (Shard.issued t.state e').any fun r => decide (r.idx = i)

/-- How often slot `i` of shard `k` is issued over a run. -/
def issueCount (env : Env F) (s : Server F) (es : List (Event F)) (k i : ℕ) : ℕ :=
  Run.count (step env) (issues k i) s es

theorem step_countedAt (env : Env F) {s : Server F} (wf : s.WellFormed) (e : Event F) {k i n : ℕ}
    (h : ∀ (t : ShardTask F), s.shards[k]? = some t → Shard.CountedAt t.state i n)
    {t' : ShardTask F} (ht' : (step env s e).shards[k]? = some t') :
    Shard.CountedAt t'.state i (n + (issues k i s e).toNat) := by
  obtain ⟨t, ht, hstep⟩ := taskStep env s e ht'
  rw [hstep.state]
  unfold issues
  rw [ht, Option.any_some]
  cases s.turn k e with
  | none => exact h t ht
  | some e' => exact (Shard.slotStep env (wf k t ht) e' i).countedAt (h t ht)

/-- Generations count the issues over a run of the process. -/
theorem run_countedAt (env : Env F) (configs : List (Shard.Config F)) (baseDeg : F) (cap : ℕ)
    (es : List (Event F)) {k : ℕ} (i : ℕ) {t : ShardTask F}
    (ht : (run env (boot configs baseDeg cap) es).shards[k]? = some t) :
    Shard.CountedAt t.state i (issueCount env (boot configs baseDeg cap) es k i) := by
  induction es using List.reverseRecOn generalizing t with
  | nil =>
    obtain ⟨c, -, rfl⟩ := List.mem_map.1 (List.mem_of_getElem? ht)
    exact Shard.boot_countedAt c i
  | append_singleton es e ih =>
    unfold issueCount
    rw [Run.count_concat]
    rw [run, Run.exec_concat] at ht
    exact step_countedAt env (run_wellFormed env configs baseDeg cap es) e (fun t h => ih h) ht

omit [F64 F] in
theorem holds_of_setPhase {s : Server F} {c : ℕ} {φ φ' : Phase F} (hc : s.phase c = some φ)
    {c' k : ℕ} {r : RxRef} (h : (s.setPhase c φ').Holds c' k r)
    (hφ : ∀ p, φ'.handle = some p → φ.handle = some p) : s.Holds c' k r := by
  unfold Holds at h ⊢
  rw [phase_setPhase] at h
  split at h
  · next hcc =>
    rw [hc] at h
    rw [hcc, hc]
    exact hφ (k, r) h
  · exact h

omit [F64 F] in
theorem holds_setTicker (s : Server F) (c : ℕ) (τ : Ticker) (c' k : ℕ) (r : RxRef) :
    (s.setTicker c τ).Holds c' k r ↔ s.Holds c' k r := by
  unfold Holds
  rw [phase_setTicker]

/-- A connection gets a handle by the answer to its arrival, and in no other way. -/
theorem holds_of_step (env : Env F) {s : Server F} (h : Kept s) {e : Event F} {c k : ℕ}
    {r : RxRef} (hh : (step env s e).Holds c k r) : s.Holds c k r ∨ s.Admits e c k (some r) := by
  cases e with
  | connect info rank =>
    refine Or.inl ?_
    have hstep : step env s (.connect info rank) = s.connect info rank := rfl
    rw [hstep] at hh
    unfold connect at hh
    split at hh
    · obtain ⟨φ, hφ, h1⟩ := Option.bind_eq_some_iff.1 hh
      obtain ⟨conn, hconn, rfl⟩ := Option.map_eq_some_iff.1 hφ
      dsimp only at hconn
      rw [List.getElem?_append] at hconn
      split at hconn
      · exact Option.bind_eq_some_iff.2 ⟨conn.phase, congrArg (Option.map Conn.phase) hconn, h1⟩
      · -- the new connection has only claimed
        obtain rfl := List.mem_singleton.1 (List.mem_of_getElem? hconn)
        cases h1
    · exact hh
  | sendAdd c' =>
    unfold step at hh
    dsimp only at hh
    split at hh
    · next k' info hc =>
      exact Or.inl (holds_of_setPhase (s := s.send k' _) hc hh fun p h1 => by cases h1)
    · exact Or.inl hh
  | wake c' written =>
    unfold step at hh
    dsimp only at hh
    split at hh
    · next k' rx hc =>
      split at hh
      · have hc' : (s.setTicker c' .resting).phase c' = some (.answered k' (some rx)) := by
          rw [phase_setTicker, hc]
        exact Or.inl ((holds_setTicker s c' _ c k r).1 (holds_of_setPhase hc' hh fun p h1 => h1))
      · exact Or.inl (holds_of_setPhase hc hh fun p h1 => h1)
    · next k' hc => exact Or.inl (holds_of_setPhase hc hh fun p h1 => h1)
    · exact Or.inl hh
  | say c' l =>
    unfold step at hh
    dsimp only at hh
    split at hh
    · exact Or.inl hh
    · exact Or.inl hh
  | probe c' =>
    unfold step at hh
    dsimp only at hh
    split at hh
    · exact Or.inl ((holds_setTicker _ _ _ _ _ _).1 hh)
    · exact Or.inl hh
  | stop c' why =>
    unfold step at hh
    dsimp only at hh
    split at hh
    · next k' rx hc =>
      split at hh
      · exact Or.inl (holds_of_setPhase hc hh fun p h1 => h1)
      · exact Or.inl hh
    · exact Or.inl hh
  | sendRemove c' =>
    unfold step at hh
    dsimp only at hh
    split at hh
    · next k' rx hc =>
      exact Or.inl (holds_of_setPhase (s := s.send k' _) hc hh fun p h1 => h1)
    · next k' hc => exact Or.inl (holds_of_setPhase hc hh fun p h1 => h1)
    · exact Or.inl hh
  | giveBack c' =>
    unfold step at hh
    dsimp only at hh
    split at hh
    · next k' rx hc =>
      exact Or.inl (holds_of_setPhase (s := { s with router := s.router.release k' }) hc hh
        fun p h1 => h1)
    · exact Or.inl hh
  | finish c' =>
    unfold step at hh
    dsimp only at hh
    split at hh
    · next k' rx hc =>
      have hc' : (s.setTicker c' .off).phase c' = some (.released k' rx) := by
        rw [phase_setTicker, hc]
      exact Or.inl ((holds_setTicker s c' _ c k r).1
        (holds_of_setPhase hc' hh fun p h1 => by cases h1))
    · exact Or.inl hh
  | deliver j now heard =>
    rcases deliver_cases env s j now heard with ⟨h1, -⟩ | ⟨t, m, queue, ht, hq, -⟩
    · have hstep : step env s (.deliver j now heard) = s.deliver env j now heard := rfl
      rw [hstep, h1] at hh
      exact Or.inl hh
    · rcases deliver_spec env h ht hq with ⟨info, c', rfl, hw, hstep⟩ | ⟨-, hstep | ⟨c', τ, hstep⟩⟩
      · rw [hstep] at hh
        unfold Holds at hh
        rw [phase_setPhase] at hh
        split at hh
        · next hcc =>
          rw [phase_setTask, hw] at hh
          obtain ⟨rx, hrx, h2⟩ := Option.map_eq_some_iff.1 hh
          cases h2
          exact Or.inr ⟨now, heard, t, info, queue, rfl, ht, by rw [hcc]; exact hq, hrx.symm⟩
        · exact Or.inl hh
      · rw [hstep] at hh
        exact Or.inl hh
      · rw [hstep] at hh
        exact Or.inl ((holds_setTicker _ _ _ _ _ _).1 hh)
  | sweep j now window rank clk => exact Or.inl hh
  | ask j q => exact Or.inl hh
  | setRate j rate => exact Or.inl hh

theorem Admits.unique {s : Server F} {e : Event F} {c c' k k' : ℕ} {rx rx' : Option RxRef}
    (h : s.Admits e c k rx) (h' : s.Admits e c' k' rx') : c = c' ∧ k = k' ∧ rx = rx' := by
  obtain ⟨now, heard, t, info, queue, rfl, ht, hq, rfl⟩ := h
  obtain ⟨now', heard', t', info', queue', he, ht', hq', rfl⟩ := h'
  cases he
  rw [ht] at ht'
  cases ht'
  rw [hq] at hq'
  cases hq'
  exact ⟨rfl, rfl, rfl⟩

/-- The connections with a handle, numbered by the issues of their slots. -/
structure Numbered (s : Server F) (n : ℕ → ℕ → ℕ) (num : ℕ → ℕ) : Prop where
  lt : ∀ c k r, s.Holds c k r → num c < n k r.idx
  gen : ∀ c k r, s.Holds c k r → r.gen = UInt32.ofNat (num c)
  inj : ∀ c c' k r r', s.Holds c k r → s.Holds c' k r' → r.idx = r'.idx → num c = num c' → c = c'

omit [F64 F] in
theorem Numbered.mono {s s' : Server F} {n n' : ℕ → ℕ → ℕ} {num : ℕ → ℕ} (h : Numbered s n num)
    (hn : ∀ k i, n k i ≤ n' k i) (hh : ∀ c k r, s'.Holds c k r → s.Holds c k r) :
    Numbered s' n' num where
  lt c k r hc := Nat.lt_of_lt_of_le (h.lt c k r (hh c k r hc)) (hn k r.idx)
  gen c k r hc := h.gen c k r (hh c k r hc)
  inj c c' k r r' hc hc' := h.inj c c' k r r' (hh c k r hc) (hh c' k r' hc')

omit [F64 F] in
/-- Where connection `c` is given `r` and the others hold what they held, `c` takes the next number
    of the slot. -/
theorem Numbered.admit {s s' : Server F} {n n' : ℕ → ℕ → ℕ} {num : ℕ → ℕ} (h : Numbered s n num)
    {c k : ℕ} {r : RxRef} (hgen : r.gen = UInt32.ofNat (n k r.idx)) (hn : ∀ k i, n k i ≤ n' k i)
    (hlt : n k r.idx < n' k r.idx) (hself : ∀ k' r', s'.Holds c k' r' → k' = k ∧ r' = r)
    (hother : ∀ c' k' r', c' ≠ c → s'.Holds c' k' r' → s.Holds c' k' r') :
    Numbered s' n' (Function.update num c (n k r.idx)) := by
  -- the number of `c` is above those of the slot's other connections
  have habove : ∀ c' k' r₁ r₂, c' ≠ c → s'.Holds c k' r₁ → s'.Holds c' k' r₂ → r₁.idx = r₂.idx →
      num c' ≠ n k r.idx := by
    intro c' k' r₁ r₂ hne h₁ h₂ hidx
    obtain ⟨rfl, rfl⟩ := hself k' r₁ h₁
    have hbelow := h.lt c' k' r₂ (hother c' k' r₂ hne h₂)
    rw [← hidx] at hbelow
    omega
  refine ⟨?_, ?_, ?_⟩
  · intro c' k' r' hh
    by_cases hne : c' = c
    · subst hne
      obtain ⟨rfl, rfl⟩ := hself k' r' hh
      rw [Function.update_self]
      exact hlt
    · rw [Function.update_of_ne hne]
      exact Nat.lt_of_lt_of_le (h.lt c' k' r' (hother c' k' r' hne hh)) (hn k' r'.idx)
  · intro c' k' r' hh
    by_cases hne : c' = c
    · subst hne
      obtain ⟨rfl, rfl⟩ := hself k' r' hh
      rw [Function.update_self]
      exact hgen
    · rw [Function.update_of_ne hne]
      exact h.gen c' k' r' (hother c' k' r' hne hh)
  · intro c₁ c₂ k' r₁ r₂ h₁ h₂ hidx heq
    by_cases hc₁ : c₁ = c
    · by_cases hc₂ : c₂ = c
      · rw [hc₁, hc₂]
      · subst hc₁
        rw [Function.update_self, Function.update_of_ne hc₂] at heq
        exact absurd heq.symm (habove c₂ k' r₁ r₂ hc₂ h₁ h₂ hidx)
    · by_cases hc₂ : c₂ = c
      · subst hc₂
        rw [Function.update_self, Function.update_of_ne hc₁] at heq
        exact absurd heq (habove c₁ k' r₂ r₁ hc₁ h₂ h₁ hidx.symm)
      · rw [Function.update_of_ne hc₁, Function.update_of_ne hc₂] at heq
        exact h.inj c₁ c₂ k' r₁ r₂ (hother c₁ k' r₁ hc₁ h₁) (hother c₂ k' r₂ hc₂ h₂) hidx heq

/-- A connection that gets its handle takes the next number of the slot. -/
theorem step_numbered (env : Env F) {s : Server F} (wf : s.WellFormed) (h : Kept s)
    {n : ℕ → ℕ → ℕ} {num : ℕ → ℕ} (hnum : Numbered s n num)
    (hcount : ∀ (k i : ℕ) (t : ShardTask F), s.shards[k]? = some t →
      Shard.CountedAt t.state i (n k i)) (e : Event F) :
    ∃ num', Numbered (step env s e) (fun k i => n k i + (issues k i s e).toNat) num' := by
  by_cases hadm : ∃ c k r, s.Admits e c k (some r)
  · obtain ⟨c, k, r, ha⟩ := hadm
    obtain ⟨now, heard, t, info, queue, rfl, ht, hq, hr⟩ := id ha
    have hw : s.phase c = some (.waiting k) :=
      h.waits k t info c ht (by rw [hq]; exact List.mem_cons_self)
    have hissues : issues k r.idx s (.deliver k now heard) = true := by
      unfold issues turn
      dsimp only
      rw [if_pos rfl, ht, Option.bind_some, hq, Option.any_some, List.head?_cons, Option.map_some,
        Option.any_some]
      show (Shard.issued t.state (.msg now heard (.addReceiver info))).any _ = true
      rw [← hr, Option.any_some, decide_eq_true_eq]
    have hgen : r.gen = UInt32.ofNat (n k r.idx) :=
      (Shard.slotStep env (wf k t ht) _ r.idx).gen_issued hr.symm (hcount k r.idx t ht)
    -- who holds a handle afterwards: `c` its new one, the others those they held
    have hself : ∀ k' r', (step env s (.deliver k now heard)).Holds c k' r' → k' = k ∧ r' = r := by
      intro k' r' hh
      rcases holds_of_step env h hh with h1 | h1
      · unfold Holds at h1
        rw [hw] at h1
        cases h1
      · obtain ⟨-, h2, h3⟩ := h1.unique ha
        exact ⟨h2, Option.some.inj h3⟩
    have hother : ∀ c' k' r', c' ≠ c → (step env s (.deliver k now heard)).Holds c' k' r' →
        s.Holds c' k' r' := by
      intro c' k' r' hne hh
      rcases holds_of_step env h hh with h1 | h1
      · exact h1
      · exact absurd (h1.unique ha).1 hne
    exact ⟨Function.update num c (n k r.idx), hnum.admit hgen (fun k i => Nat.le_add_right _ _)
      (by rw [hissues]; exact Nat.lt_succ_self _) hself hother⟩
  · refine ⟨num, hnum.mono (fun k i => Nat.le_add_right _ _) fun c k r hh => ?_⟩
    rcases holds_of_step env h hh with h1 | h1
    · exact h1
    · exact absurd ⟨c, k, r, h1⟩ hadm

theorem run_numbered (env : Env F) (configs : List (Shard.Config F)) (baseDeg : F) (cap : ℕ)
    (es : List (Event F)) :
    ∃ num, Numbered (run env (boot configs baseDeg cap) es)
      (issueCount env (boot configs baseDeg cap) es) num := by
  induction es using List.reverseRecOn with
  | nil =>
    have hno : ∀ c k r, ¬ (boot configs baseDeg cap).Holds c k r := fun c k r h => by cases h
    exact ⟨fun _ => 0, fun c k r h => absurd h (hno c k r), fun c k r h => absurd h (hno c k r),
      fun c c' k r r' h => absurd h (hno c k r)⟩
  | append_singleton es e ih =>
    obtain ⟨num, hnum⟩ := ih
    have hcount : issueCount env (boot configs baseDeg cap) (es ++ [e]) = fun k i =>
        issueCount env (boot configs baseDeg cap) es k i +
          (issues k i (run env (boot configs baseDeg cap) es) e).toNat := by
      funext k i
      exact Run.count_concat (issues k i) _ es e
    rw [hcount, run, Run.exec_concat]
    exact step_numbered env (run_wellFormed env configs baseDeg cap es)
      (run_kept env configs baseDeg cap es) hnum
      (fun k i t ht => run_countedAt env configs baseDeg cap es i ht) e

/-- **Two connections never have one handle**, as long as its slot is issued at most `2^32`
    times. -/
theorem holder_unique (env : Env F) (configs : List (Shard.Config F)) (baseDeg : F) (cap : ℕ)
    (es : List (Event F)) {k : ℕ} {r : RxRef}
    (hfew : issueCount env (boot configs baseDeg cap) es k r.idx ≤ 2 ^ 32) {c c' : ℕ}
    (h : (run env (boot configs baseDeg cap) es).Holds c k r)
    (h' : (run env (boot configs baseDeg cap) es).Holds c' k r) : c = c' := by
  obtain ⟨num, hnum⟩ := run_numbered env configs baseDeg cap es
  have h1 := hnum.lt c k r h
  have h2 := hnum.lt c' k r h'
  have h3 := Shard.ofNat_inj_of_lt (by omega) (by omega)
    ((hnum.gen c k r h).symm.trans (hnum.gen c' k r h'))
  exact hnum.inj c c' k r r h h' rfl h3

/-! ## Every run -/

/-- The handle of every live slot is one unfinished connection's, or named by a removal in the
    queue. -/
def EachHeldOnce (s : Server F) : Prop :=
  ∀ (k : ℕ) (t : ShardTask F) (i : ℕ), s.shards[k]? = some t → t.state.isAlive i = true →
    (∃! c, s.Holds c k (Shard.holder t.state i)) ∨
      .removeReceiver (Shard.holder t.state i) ∈ t.queue

/-- Nothing is left over: every connection finished and every queue empty leave no count and no
    live slot. -/
def Drained (s : Server F) : Prop :=
  (∀ c φ, s.phase c = some φ → φ = .finished) →
    (∀ (k : ℕ) (t : ShardTask F), s.shards[k]? = some t → t.queue = []) →
    (∀ (k : ℕ) (h : ShardHandle), s.router.shards[k]? = some h → h.receivers = 0) ∧
      ∀ (k : ℕ) (t : ShardTask F), s.shards[k]? = some t → t.state.liveReceivers = 0

omit [F64 F] in
theorem Kept.drained {s : Server F} (h : Kept s) : Drained s := by
  intro hfin hempty
  have hphase : ∀ conn ∈ s.conns, conn.phase = .finished := by
    intro conn hmem
    obtain ⟨c, hc⟩ := List.mem_iff_getElem?.1 hmem
    exact hfin c conn.phase (congrArg (Option.map Conn.phase) hc)
  constructor
  · intro k hd hk
    rw [h.counts k hd hk]
    unfold claims
    rw [List.countP_eq_zero]
    intro conn hmem
    rw [hphase conn hmem]
    exact Bool.false_ne_true
  · intro k t ht
    unfold State.liveReceivers
    rw [List.length_eq_zero_iff, List.filter_eq_nil_iff]
    intro a hmem ha
    obtain ⟨i, hi⟩ := List.mem_iff_getElem?.1 hmem
    have halive : t.state.isAlive i = true := by
      unfold State.isAlive
      rw [List.getD_eq_getElem?_getD, hi]
      exact ha
    rcases h.held k t i ht halive with ⟨c, hc⟩ | hmem
    · obtain ⟨φ, hφ, h1⟩ := Option.bind_eq_some_iff.1 hc
      rw [hfin c φ hφ] at h1
      cases h1
    · rw [hempty k t ht] at hmem
      cases hmem

omit [F64 F] in
/-- A connection about to give its count back finds it counted. -/
theorem Kept.no_underflow {s : Server F} (h : Kept s) {c k : ℕ} {rx : Option RxRef}
    (hc : s.phase c = some (.removed k rx)) {hd : ShardHandle}
    (hk : s.router.shards[k]? = some hd) : 0 < hd.receivers := by
  rw [h.counts k hd hk]
  obtain ⟨conn, hconn, hφ⟩ := Option.map_eq_some_iff.1 hc
  refine List.countP_pos_iff.2 ⟨conn, List.mem_of_getElem? hconn, ?_⟩
  rw [hφ]
  exact decide_eq_true rfl

/-- **No connection leaks a slot or a count**, over every run: a shard's count is the number of
    connections that have claimed it and not given it back, and is positive where one gives it
    back; a live slot's handle is some unfinished connection's or named by a removal in the queue,
    and only one connection's where the slot was issued at most `2^32` times; and when all are
    finished and the queues empty, nothing is left. -/
theorem no_leak (env : Env F) (configs : List (Shard.Config F)) (baseDeg : F) (cap : ℕ)
    (es : List (Event F)) :
    let s := run env (boot configs baseDeg cap) es
    (∀ (k : ℕ) (h : ShardHandle), s.router.shards[k]? = some h → h.receivers = s.claims k) ∧
    (∀ c k rx h, s.phase c = some (.removed k rx) → s.router.shards[k]? = some h →
      0 < h.receivers) ∧
    (∀ (k : ℕ) (t : ShardTask F) (i : ℕ), s.shards[k]? = some t → t.state.isAlive i = true →
      ((∃ c, s.Holds c k (Shard.holder t.state i)) ∨
        .removeReceiver (Shard.holder t.state i) ∈ t.queue) ∧
      (issueCount env (boot configs baseDeg cap) es k i ≤ 2 ^ 32 →
        (∃! c, s.Holds c k (Shard.holder t.state i)) ∨
          .removeReceiver (Shard.holder t.state i) ∈ t.queue)) ∧
    s.Drained := by
  intro s
  have hkept : Kept s := run_kept env configs baseDeg cap es
  refine ⟨hkept.counts, fun c k rx h hc hk => hkept.no_underflow hc hk, ?_, hkept.drained⟩
  intro k t i ht ha
  have hheld : (∃ c, s.Holds c k (Shard.holder t.state i)) ∨
      .removeReceiver (Shard.holder t.state i) ∈ t.queue :=
    (hkept.held k t i ht ha).imp_left fun ⟨c, hc⟩ => ⟨c, hc.holds⟩
  refine ⟨hheld, fun hfew => hheld.imp_left fun ⟨c, hc⟩ => ⟨c, hc, fun c' hc' => ?_⟩⟩
  exact holder_unique env configs baseDeg cap es hfew hc' hc

/-! ## A generation that comes round -/

/-- A process of one shard with a connection more, the last. -/
def joined (s : Server F) (router : Router F) (t : ShardTask F) (conn : Conn F) : Server F :=
  { router := router, shards := [t], conns := s.conns ++ [conn] }

section
variable (s : Server F) (router : Router F) (t : ShardTask F) (conn : Conn F)

section
omit [F64 F]

theorem phase_joined : (s.joined router t conn).phase s.conns.length = some conn.phase := by
  unfold phase joined
  rw [List.getElem?_concat_length]
  rfl

theorem setPhase_joined (φ : Phase F) :
    (s.joined router t conn).setPhase s.conns.length φ =
      s.joined router t { conn with phase := φ } := by
  unfold setPhase joined
  rw [List.modify_concat]

theorem setTicker_joined (τ : Ticker) :
    (s.joined router t conn).setTicker s.conns.length τ =
      s.joined router t { conn with ticker := τ } := by
  unfold setTicker joined
  rw [List.modify_concat]

end

end

/-- The four events that serve a feeder as connection `c`. -/
def serve (c : ℕ) (info : ReceiverInfo F) (rank : ℕ → ℕ) (now : Instant) (heard : ℕ → F) :
    List (Event F) :=
  [.connect info rank, .sendAdd c, .deliver 0 now heard, .wake c true]

theorem run_serve (env : Env F) {s : Server F} {t : ShardTask F} {info : ReceiverInfo F}
    {rank : ℕ → ℕ} {now : Instant} {heard : ℕ → F} {r : RxRef} {c : ℕ} (hc : s.conns.length = c)
    (hpos : plausiblePosition info.geo.latDeg info.geo.lonDeg info.geo.altM = true)
    (hchosen : s.router.chosen (info.geo.latDeg, info.geo.lonDeg) rank = 0)
    (hs : s.shards = [t]) (hq : t.queue = [])
    (hadd : (t.state.addReceiver now heard info).2 = some r) :
    run env s (serve c info rank now heard) =
      s.joined (s.router.shardFor (info.geo.latDeg, info.geo.lonDeg) rank).1
        ⟨(t.state.addReceiver now heard info).1, []⟩ ⟨.running 0 r, .resting⟩ := by
  subst hc
  set router := (s.router.shardFor (info.geo.latDeg, info.geo.lonDeg) rank).1
  have h1 : step env s (.connect info rank) =
      s.joined router t ⟨.claimed 0 info, .off⟩ := by
    have hshard : (s.router.shardFor (info.geo.latDeg, info.geo.lonDeg) rank).2 = 0 := hchosen
    unfold step connect
    dsimp only
    rw [if_pos hpos, hshard, hs]
    rfl
  have h2 : step env (s.joined router t ⟨.claimed 0 info, .off⟩) (.sendAdd s.conns.length) =
      s.joined router ⟨t.state, [.addReceiver info s.conns.length]⟩ ⟨.waiting 0, .off⟩ := by
    have hsend : (s.joined router t ⟨.claimed 0 info, .off⟩).send 0
        (.addReceiver info s.conns.length) =
        s.joined router ⟨t.state, [.addReceiver info s.conns.length]⟩ ⟨.claimed 0 info, .off⟩ := by
      show s.joined router ⟨t.state, t.queue ++ _⟩ _ = _
      rw [hq]
      rfl
    unfold step
    simp only [phase_joined]
    rw [hsend, setPhase_joined]
  have h3 : step env
      (s.joined router ⟨t.state, [.addReceiver info s.conns.length]⟩ ⟨.waiting 0, .off⟩)
      (.deliver 0 now heard) =
      s.joined router ⟨(t.state.addReceiver now heard info).1, []⟩
        ⟨.answered 0 (some r), .off⟩ := by
    show answer (s.joined router ⟨(t.state.addReceiver now heard info).1, []⟩ ⟨.waiting 0, .off⟩)
      (.addReceiver info s.conns.length) (.added (t.state.addReceiver now heard info).2) = _
    unfold answer
    simp only [phase_joined]
    rw [setPhase_joined, hadd]
  have h4 : step env (s.joined router ⟨(t.state.addReceiver now heard info).1, []⟩
      ⟨.answered 0 (some r), .off⟩) (.wake s.conns.length true) =
      s.joined router ⟨(t.state.addReceiver now heard info).1, []⟩ ⟨.running 0 r, .resting⟩ := by
    unfold step
    simp only [phase_joined]
    rw [if_pos trivial, setTicker_joined, setPhase_joined]
  unfold serve run
  rw [Run.exec_cons, Run.exec_cons, Run.exec_cons, Run.exec_cons, Run.exec_nil, h1, h2, h3, h4]

omit [F64 F] in
theorem holds_joined (s : Server F) (router : Router F) (t : ShardTask F) (conn : Conn F)
    (c k : ℕ) (r : RxRef) :
    (s.joined router t conn).Holds c k r ↔
      s.Holds c k r ∨ c = s.conns.length ∧ conn.phase.handle = some (k, r) := by
  unfold Holds
  by_cases hc : c = s.conns.length
  · subst hc
    have hnone : s.phase s.conns.length = none := by
      unfold phase
      rw [List.getElem?_eq_none le_rfl]
      rfl
    rw [phase_joined, hnone, Option.bind_some, Option.bind_none]
    simp
  · have hphase : (s.joined router t conn).phase c = s.phase c := by
      unfold phase joined
      dsimp only
      rcases Nat.lt_or_gt_of_ne hc with h | h
      · rw [List.getElem?_append_left h]
      · rw [List.getElem?_eq_none (by simp; omega), List.getElem?_eq_none (by omega)]
    rw [hphase]
    simp [hc]

/-- A feeder with a uuid. -/
def home : ReceiverInfo ℚ := Sample.feeder "Home" (some "a1")

/-- The feeder connects, and connects again `n` times, each time before the connection before has
    noticed. -/
def reconnects (n : ℕ) : List (Event ℚ) :=
  (List.range (n + 1)).flatMap fun c => serve c home id (Sample.seconds 1) fun _ => 1

/-- One shard and `n` reconnects: its slot has the generation of the last, and the first connection
    has still its handle. -/
structure Wound (s : Server ℚ) (n : ℕ) : Prop where
  router : s.router.shards.length = 1
  owners : s.router.OwnersExist
  task : ∃ t, s.shards = [t] ∧ t.queue = [] ∧ t.state.WellFormed ∧
    t.state.isAlive 0 = true ∧ (t.state.receiver 0).user = "Home" ∧
    (t.state.receiver 0).uuid = some "a1" ∧ t.state.gen 0 = UInt32.ofNat n
  conns : s.conns.length = n + 1
  first : s.Holds 0 0 ⟨0, 0⟩
  last : s.Holds n 0 ⟨0, UInt32.ofNat n⟩

theorem chosen_zero {r : Router ℚ} (h : r.shards.length = 1) (ho : r.OwnersExist) :
    r.chosen (home.geo.latDeg, home.geo.lonDeg) id = 0 := by
  have h1 := Router.chosen_lt ho (by omega) (home.geo.latDeg, home.geo.lonDeg) id
  omega

theorem reconnect_wound {s : Server ℚ} {n : ℕ} (h : Wound s n) :
    Wound (run Sample.env s (serve (n + 1) home id (Sample.seconds 1) fun _ => 1)) (n + 1) := by
  obtain ⟨t, hshards, hqueue, hwf, halive, huser, huuid, hgen⟩ := h.task
  have hname : t.state.byUser.lookup home.user = some 0 := (hwf.byUser _ 0).2 ⟨halive, huser⟩
  have hsame : State.sameFeeder (t.state.receiver 0).uuid home.uuid = true := by
    rw [huuid]
    rfl
  obtain ⟨hadd, halive', hrec, hgen'⟩ :=
    State.addReceiver_of_sameFeeder hwf (Sample.seconds 1) (fun _ => 1) hname hsame
  have hlen : 0 < s.router.shards.length := by
    rw [h.router]
    exact Nat.one_pos
  have hnext : t.state.gen 0 + 1 = UInt32.ofNat (n + 1) := by
    rw [hgen, UInt32.ofNat_add]
    rfl
  rw [hnext] at hadd hgen'
  rw [run_serve Sample.env h.conns (by decide +kernel) (chosen_zero h.router h.owners) hshards
    hqueue hadd]
  refine
    { router := (List.length_modify _ _ _).trans h.router
      owners := Router.shardFor_ownersExist h.owners hlen _ _
      task := ⟨_, rfl, rfl, State.step_wellFormed Sample.env t.state
        (.msg (Sample.seconds 1) (fun _ => 1) (.addReceiver home)) hwf, halive', ?_, ?_, hgen'⟩
      conns := ?_
      first := (holds_joined _ _ _ _ _ _ _).2 (Or.inl h.first)
      last := (holds_joined _ _ _ _ _ _ _).2 (Or.inr ⟨h.conns.symm, rfl⟩) }
  · exact congrArg ReceiverInfo.user hrec
  · exact congrArg ReceiverInfo.uuid hrec
  · unfold joined
    rw [List.length_append, h.conns]
    rfl

theorem reconnects_wound (n : ℕ) :
    Wound (run Sample.env (boot [Sample.config] 5 64) (reconnects n)) n := by
  induction n with
  | zero =>
    have howners : (boot [Sample.config] 5 64 : Server ℚ).router.OwnersExist := by
      intro key i h
      rw [boot, Router.new, Finmap.lookup_empty] at h
      cases h
    have hadd : ((Shard.boot Sample.config).addReceiver (Sample.seconds 1) (fun _ => 1) home).2 =
        some ⟨0, 0⟩ := by decide +kernel
    have hconns : (boot [Sample.config] 5 64 : Server ℚ).conns.length = 0 := rfl
    have hshards : (boot [Sample.config] 5 64 : Server ℚ).shards =
      [⟨Shard.boot Sample.config, []⟩] := rfl
    have hzero : reconnects 0 = serve 0 home id (Sample.seconds 1) fun _ => 1 := rfl
    rw [hzero, run_serve Sample.env hconns (by decide +kernel) (chosen_zero rfl howners) hshards rfl
      hadd]
    refine
      { router := rfl
        owners := Router.shardFor_ownersExist howners Nat.one_pos _ _
        task := ⟨_, rfl, rfl, State.step_wellFormed Sample.env _
          (.msg (Sample.seconds 1) (fun _ => 1) (.addReceiver home))
          (State.boot_wellFormed Sample.config), ?_, ?_, ?_, ?_⟩
        conns := rfl
        first := (holds_joined _ _ _ _ _ _ _).2 (Or.inr ⟨rfl, rfl⟩)
        last := (holds_joined _ _ _ _ _ _ _).2 (Or.inr ⟨rfl, rfl⟩) }
    · decide +kernel
    · decide +kernel
    · decide +kernel
    · decide +kernel
  | succ n ih =>
    have hsucc : reconnects (n + 1) =
        reconnects n ++ serve (n + 1) home id (Sample.seconds 1) fun _ => 1 := by
      unfold reconnects
      rw [List.range_succ, List.flatMap_append, List.flatMap_singleton]
    rw [hsucc, run, Run.exec_append]
    exact reconnect_wound ih

/-- Once the generation is zero again, the first connection and the last have one handle. -/
theorem Wound.not_heldOnce {s : Server ℚ} {n : ℕ} (h : Wound s n) (hn : n ≠ 0)
    (hround : UInt32.ofNat n = 0) : ¬ s.EachHeldOnce := by
  intro hs
  obtain ⟨t, hshards, hqueue, -, halive, -, -, hgen⟩ := h.task
  have hholder : Shard.holder t.state 0 = ⟨0, 0⟩ := congrArg (RxRef.mk 0) (hgen.trans hround)
  have hlast := h.last
  rw [hround] at hlast
  rcases hs 0 t 0 (by rw [hshards]; rfl) halive with ⟨c, -, hc⟩ | hmem
  · rw [hholder] at hc
    exact hn ((hc n hlast).trans (hc 0 h.first).symm)
  · rw [hqueue] at hmem
    cases hmem

/-- A feeder that reconnects `2^32` times before its first connection is told that its slot is
    gone: the handle of the first is live again, and the last has it too. -/
theorem reissues_come_round :
    ¬ ∀ es, (run Sample.env (boot [Sample.config] 5 64) es).EachHeldOnce := by
  intro h
  exact (reconnects_wound (2 ^ 32)).not_heldOnce (by decide) rfl (h _)

end Server

end Mlatd
