/-
  Handles over a run (state.rs, live, add_receiver; shard.rs, run_shard): an `RxRef` is issued
  once, is live until it is removed or replaced, and is dead from then on.

  A slot's generation counts its issues (`gen_eq`), so handles of one slot differ as long as the
  count has not wrapped. `slotStep` says what one step can do to one slot; liveness over a run
  (`live_or_ended`) is an induction on it from the issue of the handle.
-/
import Mlatd.Registry.Invariant

namespace Mlatd

variable {F : Type} [F64 F]

/-- The handle a message carries. -/
def ShardMsg.handle : ShardMsg F → Option RxRef
  | .removeReceiver r | .sync r _ _ _ _ _ | .mlat r _ _ _ | .clockReset r | .receiverStats r =>
    some r
  | .addReceiver _ | .stats | .syncJson | .stateJson => none

namespace State

/-- The slot a newcomer replaces. -/
def replaced (s : State F) (now : Instant) (heard : ℕ → F) (info : ReceiverInfo F) : Option ℕ :=
  (s.identify now heard info).bind Prod.fst

end State

namespace Shard

open State

/-! ## One step of one slot -/

/-- The event removes the handle, or replaces its slot. -/
def Ends (s : State F) (r : RxRef) : Event F → Prop
  | .msg _ _ (.removeReceiver r') => r' = r
  | .msg now heard (.addReceiver info) => s.replaced now heard info = some r.idx
  | _ => False

/-- The handle slot `i` is held under. -/
def holder (s : State F) (i : ℕ) : RxRef := ⟨i, s.gen i⟩

/-- What a step does to slot `i`: issue it, keep it, or free it. -/
inductive SlotStep (s s' : State F) (e : Event F) (i : ℕ) : Prop
  | issue (r : RxRef) (h : issued s e = some r) (hi : r.idx = i)
      (hlen : i < s'.receivers.length) (halive : s'.isAlive i = true) (hgen : s'.gen i = r.gen)
      (hr : r.gen = if i < s.receivers.length then s.gen i + 1 else 0)
      (hfree : s.isAlive i = false ∨ Ends s (holder s i) e)
  | keep (h : ∀ r, issued s e = some r → r.idx ≠ i)
      (hlen : i < s'.receivers.length ↔ i < s.receivers.length) (hgen : s'.gen i = s.gen i)
      (halive : s'.isAlive i = s.isAlive i)
      (hends : s.isAlive i = true → ¬ Ends s (holder s i) e)
  | free (h : ∀ r, issued s e = some r → r.idx ≠ i)
      (hlen : i < s'.receivers.length ↔ i < s.receivers.length) (hgen : s'.gen i = s.gen i)
      (hbefore : s.isAlive i = true) (hafter : s'.isAlive i = false)
      (hends : Ends s (holder s i) e)

theorem issued_of_quiet (s : State F) {e : Event F} (h : e.isQuiet = true) :
    issued s e = none := by
  cases e with
  | sweep => rfl
  | msg now heard m =>
    cases m with
    | addReceiver info => cases h
    | _ => rfl

theorem not_ends_of_quiet (s : State F) (r : RxRef) {e : Event F} (h : e.isQuiet = true) :
    ¬ Ends s r e := by
  cases e with
  | sweep => exact id
  | msg now heard m =>
    cases m with
    | addReceiver info => cases h
    | removeReceiver r => cases h
    | _ => exact id

theorem SlotStep.of_sameSlots {s s' : State F} {e : Event F} (h : SameSlots s s')
    (hi : issued s e = none) (he : ∀ r, ¬ Ends s r e) (i : ℕ) : SlotStep s s' e i := by
  refine .keep ?_ (by rw [h.receivers]) ?_ (h.isAlive i) (fun _ => he _)
  · intro r hr
    rw [hi] at hr
    cases hr
  · unfold State.gen
    rw [h.gens]

theorem slotStep_remove (env : Env F) {s : State F} (wf : WellFormed s) (now : Instant)
    (heard : ℕ → F) (r : RxRef) (i : ℕ) :
    SlotStep s (step env s (.msg now heard (.removeReceiver r)))
      (.msg now heard (.removeReceiver r)) i := by
  show SlotStep s (s.removeReceiver r) _ i
  have hnone : ∀ r', issued s (.msg now heard (.removeReceiver r)) = some r' → r'.idx ≠ i := by
    intro r' h
    cases h
  cases hl : s.live r with
  | false =>
    rw [removeReceiver_of_not_live s hl]
    refine .keep hnone Iff.rfl rfl rfl ?_
    rintro ha rfl
    rw [(live_iff s (holder s i)).2 ⟨wf.lt ha, ha, rfl⟩] at hl
    cases hl
  | true =>
    have hf := removeReceiver_frees s hl
    obtain ⟨-, ha, hg⟩ := (live_iff s r).1 hl
    by_cases hi : i = r.idx
    · subst hi
      refine .free hnone (by rw [hf.receivers]) (hf.gen _) ha ?_ ?_
      · rw [hf.isAlive, if_pos rfl]
      · show r = holder s r.idx
        unfold holder
        rw [hg]
    · refine .keep hnone (by rw [hf.receivers]) (hf.gen i) ?_ ?_
      · rw [hf.isAlive, if_neg hi]
      · rintro - rfl
        exact hi rfl

/-- The part of an arrival after its eviction, if there was one. -/
theorem slotStep_issue {s s0 s' : State F} {e : Event F} {user : String}
    {info : ReceiverInfo F} {r : RxRef} {i : ℕ} (wf : WellFormed s)
    (h0 : s0 = s ∧ (∀ r, ¬ Ends s r e) ∨
      ∃ j, Frees s s0 j ∧ ∀ r, Ends s r e ↔ r.idx = j)
    (wf0 : WellFormed s0) (hi : Issues s0 s' r.idx { info with user := user })
    (hr : issued s e = some r) (hgen : s'.gen r.idx = r.gen) : SlotStep s s' e i := by
  have hlen0 : s0.receivers.length = s.receivers.length := by
    rcases h0 with ⟨rfl, -⟩ | ⟨j, hf, -⟩
    · rfl
    · rw [hf.receivers]
  have hgen0 : s0.gen i = s.gen i := by
    rcases h0 with ⟨rfl, -⟩ | ⟨j, hf, -⟩
    · rfl
    · exact hf.gen i
  by_cases hri : r.idx = i
  · subst hri
    have hg := hi.gen wf0 r.idx
    refine .issue r hr rfl ?_ ?_ hgen ?_ ?_
    · rw [hi.length wf0]
      omega
    · rw [hi.isAlive wf0, if_pos rfl]
    · rw [← hgen, hg, hgen0, ← hlen0]
      by_cases hlt : r.idx < s0.receivers.length
      · rw [if_pos ⟨rfl, hlt⟩, if_pos hlt]
      · rw [if_neg (fun h => hlt h.2), if_neg hlt]
        unfold State.gen
        rw [List.getD_of_length_le _ (by rw [wf.gens, ← hlen0]; omega)]
    · have hdead := hi.dead wf0
      rcases h0 with ⟨rfl, -⟩ | ⟨j, hf, hends⟩
      · exact Or.inl hdead
      · by_cases hj : r.idx = j
        · exact Or.inr ((hends _).2 hj)
        · rw [hf.isAlive, if_neg hj] at hdead
          exact Or.inl hdead
  · have hne : ∀ r', issued s e = some r' → r'.idx ≠ i := by
      intro r' hr'
      rw [hr] at hr'
      cases hr'
      exact hri
    have hlen : i < s'.receivers.length ↔ i < s.receivers.length := by
      rw [hi.length wf0, hlen0]
      rcases hi.slot with ⟨h1, -⟩ | ⟨-, h1, -⟩
      · have := ((wf0.mem_freeSlots r.idx).1 (List.mem_of_getLast? h1)).1
        omega
      · omega
    have hgen' : s'.gen i = s.gen i := by
      rw [hi.gen wf0, if_neg (fun h => hri h.1.symm), hgen0]
    have halive' : s'.isAlive i = s0.isAlive i := by
      rw [hi.isAlive wf0, if_neg (Ne.symm hri)]
    rcases h0 with ⟨rfl, hno⟩ | ⟨j, hf, hends⟩
    · exact .keep hne hlen hgen' halive' (fun _ => hno _)
    · by_cases hj : i = j
      · subst hj
        refine .free hne hlen hgen' hf.held ?_ ((hends _).2 rfl)
        rw [halive', hf.isAlive, if_pos rfl]
      · refine .keep hne hlen hgen' ?_ (fun _ h => hj ((hends _).1 h))
        rw [halive', hf.isAlive, if_neg hj]

theorem replaced_of_identify {s : State F} {now : Instant} {heard : ℕ → F}
    {info : ReceiverInfo F} {p : Option (Option ℕ × String)}
    (h : s.identify now heard info = p) : s.replaced now heard info = p.bind Prod.fst := by
  unfold State.replaced
  rw [h]

theorem slotStep_add (env : Env F) {s : State F} (wf : WellFormed s) (now : Instant)
    (heard : ℕ → F) (info : ReceiverInfo F) (i : ℕ) :
    SlotStep s (step env s (.msg now heard (.addReceiver info)))
      (.msg now heard (.addReceiver info)) i := by
  have hstep : step env s (.msg now heard (.addReceiver info)) =
    (s.addReceiver now heard info).1 := rfl
  have hissued : issued s (.msg now heard (.addReceiver info)) =
    (s.addReceiver now heard info).2 := rfl
  have hends : ∀ r, Ends s r (.msg now heard (.addReceiver info)) ↔
    s.replaced now heard info = some r.idx := fun _ => Iff.rfl
  rcases addReceiver_cases s now heard info with
    ⟨hid, h1⟩ | ⟨user, ⟨hid, hu, h1⟩ | ⟨j, hid, hu, h1⟩⟩
  · rw [h1] at hstep hissued
    rw [hstep]
    refine .of_sameSlots (SameSlots.refl s) hissued (fun r h => ?_) i
    rw [hends, replaced_of_identify hid] at h
    cases h
  · have hi := issue_issues s { info with user := user }
    rw [h1] at hstep hissued
    rw [hstep]
    refine slotStep_issue wf (Or.inl ⟨rfl, fun r h => ?_⟩) wf hi hissued rfl
    rw [hends, replaced_of_identify hid] at h
    cases h
  · have hf := evict_frees wf ((wf.byUser user j).1 hu).1
    have hi := issue_issues (s.evict j) { info with user := user }
    rw [h1] at hstep hissued
    rw [hstep]
    refine slotStep_issue wf (Or.inr ⟨j, hf, fun r => ?_⟩) (hf.wellFormed wf) hi hissued rfl
    rw [hends, replaced_of_identify hid]
    exact ⟨fun h => (Option.some.inj h).symm, fun h => congrArg some h.symm⟩

/-- **What one step can do to one slot.** -/
theorem slotStep (env : Env F) {s : State F} (wf : WellFormed s) (e : Event F) (i : ℕ) :
    SlotStep s (step env s e) e i := by
  have hquiet : e.isQuiet = true → SlotStep s (step env s e) e i := fun h =>
    .of_sameSlots (step_sameSlots env s h) (issued_of_quiet s h)
      (fun r => not_ends_of_quiet s r h) i
  cases e with
  | sweep => exact hquiet rfl
  | msg now heard m =>
    cases m with
    | addReceiver info => exact slotStep_add env wf now heard info i
    | removeReceiver r => exact slotStep_remove env wf now heard r i
    | _ => exact hquiet rfl

/-! ## Generations count issues -/

theorem ofNat_pred_succ {k : ℕ} (h : 0 < k) : UInt32.ofNat (k - 1) + 1 = UInt32.ofNat k := by
  obtain ⟨k, rfl⟩ : ∃ j, k = j + 1 := ⟨k - 1, by omega⟩
  rw [Nat.add_sub_cancel, UInt32.ofNat_add]
  rfl

theorem ofNat_inj_of_lt {a b : ℕ} (ha : a < 2 ^ 32) (hb : b < 2 ^ 32)
    (h : UInt32.ofNat a = UInt32.ofNat b) : a = b := by
  have h1 := congrArg UInt32.toNat h
  rw [UInt32.toNat_ofNat_of_lt' ha, UInt32.toNat_ofNat_of_lt' hb] at h1
  exact h1

/-- Slot `i` exists if it was issued, and its generation is that of its issue `n`. -/
def CountedAt (s : State F) (i n : ℕ) : Prop :=
  (i < s.receivers.length ↔ 0 < n) ∧ (0 < n → s.gen i = UInt32.ofNat (n - 1))

omit [F64 F] in
theorem boot_countedAt (c : Config F) (i : ℕ) : CountedAt (boot c) i 0 :=
  ⟨by simp [boot, State.new], by simp⟩

/-- The handle of an issue carries the number of issues before it. -/
theorem SlotStep.gen_issued {s s' : State F} {e : Event F} {n : ℕ} {r : RxRef}
    (h : SlotStep s s' e r.idx) (hr : issued s e = some r) (hc : CountedAt s r.idx n) :
    r.gen = UInt32.ofNat n := by
  obtain ⟨h1, h2⟩ := hc
  cases h with
  | issue r' h' hi hlen halive hgen hg hfree =>
    rw [hr] at h'
    cases h'
    rw [hg]
    by_cases h0 : 0 < n
    · rw [if_pos (h1.2 h0), h2 h0, ofNat_pred_succ h0]
    · rw [if_neg (fun h => h0 (h1.1 h)), Nat.eq_zero_of_not_pos h0]
      rfl
  | keep h' => exact absurd rfl (h' r hr)
  | free h' => exact absurd rfl (h' r hr)

/-- A step counts on by the issue it makes of the slot. -/
theorem SlotStep.countedAt {s s' : State F} {e : Event F} {i n : ℕ} (h : SlotStep s s' e i)
    (hc : CountedAt s i n) :
    CountedAt s' i (n + ((issued s e).any fun r => decide (r.idx = i)).toNat) := by
  have hsame : (∀ r, issued s e = some r → r.idx ≠ i) →
      n + ((issued s e).any fun r => decide (r.idx = i)).toNat = n := by
    intro h
    cases hr : issued s e with
    | none => rfl
    | some r => simp [h r hr]
  cases h with
  | issue r h' hi hlen halive hgen hg hfree =>
    subst hi
    have hcount : n + ((issued s e).any fun r' => decide (r'.idx = r.idx)).toNat = n + 1 := by
      rw [h']
      simp
    have hr := (SlotStep.issue r h' rfl hlen halive hgen hg hfree).gen_issued h' hc
    rw [hcount]
    refine ⟨⟨fun _ => by omega, fun _ => hlen⟩, fun _ => ?_⟩
    rw [hgen, hr, Nat.add_sub_cancel]
  | keep h' hlen hgen halive hends =>
    rw [hsame h']
    exact ⟨hlen.trans hc.1, fun h0 => hgen.trans (hc.2 h0)⟩
  | free h' hlen hgen hbefore hafter hends =>
    rw [hsame h']
    exact ⟨hlen.trans hc.1, fun h0 => hgen.trans (hc.2 h0)⟩

/-! ## A run, event by event -/

section
variable (env : Env F) (c : Config F) (es : List (Event F))

/-- The state before event `n`. -/
def stateAt (n : ℕ) : State F := run env (boot c) (es.take n)

/-- The handle event `n` issues. -/
def issuedAt (n : ℕ) : Option RxRef := es[n]?.bind (issued (stateAt env c es n))

/-- Event `n` ends the handle. -/
def EndsAt (n : ℕ) (r : RxRef) : Prop := ∃ e, es[n]? = some e ∧ Ends (stateAt env c es n) r e

/-- How often slot `i` is issued before event `n`. -/
def issueCount (n i : ℕ) : ℕ :=
  ((List.range n).filter fun k => (issuedAt env c es k).any fun r => decide (r.idx = i)).length

variable {env c es}

theorem stateAt_wellFormed (n : ℕ) : WellFormed (stateAt env c es n) := run_wellFormed env c _

theorem slotStep_at {n : ℕ} (hn : n < es.length) (i : ℕ) :
    SlotStep (stateAt env c es n) (stateAt env c es (n + 1)) es[n] i := by
  have h : stateAt env c es (n + 1) = step env (stateAt env c es n) es[n] :=
    Run.exec_take_succ (boot c) es n hn
  rw [h]
  exact slotStep env (stateAt_wellFormed n) es[n] i

theorem issuedAt_eq {n : ℕ} (hn : n < es.length) :
    issuedAt env c es n = issued (stateAt env c es n) es[n] := by
  unfold issuedAt
  rw [List.getElem?_eq_getElem hn]
  rfl

theorem lt_of_issuedAt {n : ℕ} {r : RxRef} (h : issuedAt env c es n = some r) : n < es.length := by
  by_contra hn
  unfold issuedAt at h
  rw [List.getElem?_eq_none (by omega)] at h
  cases h

theorem endsAt_iff {n : ℕ} (hn : n < es.length) (r : RxRef) :
    EndsAt env c es n r ↔ Ends (stateAt env c es n) r es[n] := by
  unfold EndsAt
  rw [List.getElem?_eq_getElem hn]
  simp

theorem issueCount_succ (n i : ℕ) :
    issueCount env c es (n + 1) i = issueCount env c es n i +
      ((issuedAt env c es n).any fun r => decide (r.idx = i)).toNat := by
  unfold issueCount
  rw [List.range_succ, List.filter_append, List.length_append, List.filter_cons]
  cases (issuedAt env c es n).any fun r => decide (r.idx = i) with
  | true => rfl
  | false => rfl

theorem issueCount_succ_of_issue {n : ℕ} {r : RxRef} (h : issuedAt env c es n = some r) :
    issueCount env c es (n + 1) r.idx = issueCount env c es n r.idx + 1 := by
  rw [issueCount_succ, h]
  simp

theorem issueCount_succ_of_not {n i : ℕ} (h : ∀ r, issuedAt env c es n = some r → r.idx ≠ i) :
    issueCount env c es (n + 1) i = issueCount env c es n i := by
  rw [issueCount_succ]
  cases hr : issuedAt env c es n with
  | none => rfl
  | some r => simp [h r hr]

theorem issueCount_mono (i : ℕ) {m n : ℕ} (h : m ≤ n) :
    issueCount env c es m i ≤ issueCount env c es n i := by
  induction n, h using Nat.le_induction with
  | base => exact le_rfl
  | succ n _ ih =>
    rw [issueCount_succ]
    omega

/-! ## Generations over a run -/

/-- A slot exists once it was issued, and its generation counts its issues from zero. -/
theorem gen_eq {n : ℕ} (hn : n ≤ es.length) (i : ℕ) :
    CountedAt (stateAt env c es n) i (issueCount env c es n i) := by
  induction n with
  | zero => exact boot_countedAt c i
  | succ n ih =>
    rw [issueCount_succ, issuedAt_eq hn]
    exact (slotStep_at hn i).countedAt (ih (by omega))

/-- The generation of a handle is the number of issues of its slot before its own. -/
theorem gen_of_issuedAt {n : ℕ} {r : RxRef} (h : issuedAt env c es n = some r) :
    r.gen = UInt32.ofNat (issueCount env c es n r.idx) := by
  have hn := lt_of_issuedAt h
  rw [issuedAt_eq hn] at h
  exact (slotStep_at hn r.idx).gen_issued h (gen_eq (Nat.le_of_lt hn) r.idx)

/-! ## Liveness over a run -/

/-- Two issues of one slot under one generation are one issue. -/
theorem issuedAt_inj (hfew : ∀ i, issueCount env c es es.length i ≤ 2 ^ 32) {m n : ℕ} {r : RxRef}
    (hm : issuedAt env c es m = some r) (hn : issuedAt env c es n = some r) : m = n := by
  have hlt : ∀ {m n}, m < n → issuedAt env c es m = some r → issuedAt env c es n ≠ some r := by
    intro m n hmn hm hn
    have h1 := issueCount_succ_of_issue hm
    have h2 := issueCount_succ_of_issue hn
    have h3 := @issueCount_mono _ _ env c es r.idx _ _ (show m + 1 ≤ n from hmn)
    have h4 := @issueCount_mono _ _ env c es r.idx _ _
      (show n + 1 ≤ es.length from lt_of_issuedAt hn)
    have h5 := hfew r.idx
    have h6 := ofNat_inj_of_lt (by omega) (by omega)
      ((gen_of_issuedAt hm).symm.trans (gen_of_issuedAt hn))
    omega
  rcases Nat.lt_trichotomy m n with h | h | h
  · exact absurd hn (hlt h hm)
  · exact h
  · exact absurd hm (hlt h hn)

/-- From its issue on, a handle's slot is held under it and no event has ended it; or one has, and
    the slot is dead or was issued again. -/
theorem live_or_ended {m : ℕ} {r : RxRef} (hm : issuedAt env c es m = some r) {n : ℕ}
    (hmn : m < n) (hn : n ≤ es.length) :
    ((∀ k, m < k → k < n → ¬ EndsAt env c es k r) ∧
      issueCount env c es n r.idx = issueCount env c es m r.idx + 1 ∧
      (stateAt env c es n).live r = true) ∨
    ((∃ k, m < k ∧ k < n ∧ EndsAt env c es k r) ∧
      (issueCount env c es n r.idx = issueCount env c es m r.idx + 1 ∧
        (stateAt env c es n).isAlive r.idx = false ∨
      issueCount env c es m r.idx + 1 < issueCount env c es n r.idx)) := by
  induction n, hmn using Nat.le_induction with
  | base =>
    refine Or.inl ⟨fun k h1 h2 => by omega, issueCount_succ_of_issue hm, ?_⟩
    have hm' := hm
    rw [issuedAt_eq hn] at hm'
    cases slotStep_at hn r.idx with
    | issue r' h hi hlen halive hgen hr hfree =>
      rw [hm'] at h
      cases h
      exact (live_iff _ r).2 ⟨hlen, halive, hgen⟩
    | keep h => exact absurd rfl (h r hm')
    | free h => exact absurd rfl (h r hm')
  | succ n hmn ih =>
    have hmn : m < n := hmn
    have hcount : ∀ r', issued (stateAt env c es n) es[n] = some r' → r'.idx = r.idx →
        issueCount env c es (n + 1) r.idx = issueCount env c es n r.idx + 1 := by
      intro r' h hi
      rw [← hi]
      exact issueCount_succ_of_issue ((issuedAt_eq hn).trans h)
    have hsame : (∀ r', issued (stateAt env c es n) es[n] = some r' → r'.idx ≠ r.idx) →
        issueCount env c es (n + 1) r.idx = issueCount env c es n r.idx := by
      intro h
      exact issueCount_succ_of_not (by rw [issuedAt_eq hn]; exact h)
    rcases ih (by omega) with ⟨hno, hc, hlive⟩ | ⟨⟨k, hk1, hk2, hk⟩, hdead⟩
    · obtain ⟨hlt, ha, hg⟩ := (live_iff _ r).1 hlive
      have hholder : holder (stateAt env c es n) r.idx = r := by
        unfold holder
        rw [hg]
      cases slotStep_at hn r.idx with
      | issue r' h hi hlen halive hgen hr hfree =>
        have hend : Ends (stateAt env c es n) r es[n] := by
          rcases hfree with h1 | h1
          · rw [ha] at h1
            cases h1
          · rw [hholder] at h1
            exact h1
        refine Or.inr ⟨⟨n, hmn, by omega, (endsAt_iff hn r).2 hend⟩, Or.inr ?_⟩
        rw [hcount r' h hi, hc]
        omega
      | keep h hlen hgen halive hends =>
        refine Or.inl ⟨fun k h1 h2 => ?_, (hsame h).trans hc, ?_⟩
        · by_cases hk : k = n
          · rw [hk, endsAt_iff hn, ← hholder]
            exact hends ha
          · exact hno k h1 (by omega)
        · exact (live_iff _ r).2 ⟨hlen.2 hlt, halive.trans ha, hgen.trans hg⟩
      | free h hlen hgen hbefore hafter hends =>
        rw [hholder] at hends
        exact Or.inr ⟨⟨n, hmn, by omega, (endsAt_iff hn r).2 hends⟩,
          Or.inl ⟨(hsame h).trans hc, hafter⟩⟩
    · refine Or.inr ⟨⟨k, hk1, by omega, hk⟩, ?_⟩
      cases slotStep_at hn r.idx with
      | issue r' h hi hlen halive hgen hr hfree =>
        rw [hcount r' h hi]
        exact Or.inr (by omega)
      | keep h hlen hgen halive hends =>
        rw [hsame h, halive]
        exact hdead
      | free h hlen hgen hbefore hafter hends =>
        rw [hsame h]
        exact hdead.imp_left fun hd => ⟨hd.1, hafter⟩

/-- A handle is live exactly until an event ends it. -/
theorem live_iff_not_ended (hfew : ∀ i, issueCount env c es es.length i ≤ 2 ^ 32) {m : ℕ}
    {r : RxRef} (hm : issuedAt env c es m = some r) {n : ℕ} (hmn : m < n) (hn : n ≤ es.length) :
    (stateAt env c es n).live r = true ↔ ∀ k, m < k → k < n → ¬ EndsAt env c es k r := by
  rcases live_or_ended hm hmn hn with ⟨hno, -, hlive⟩ | ⟨⟨k, hk1, hk2, hk⟩, hdead⟩
  · exact ⟨fun _ => hno, fun _ => hlive⟩
  · refine ⟨fun hlive => ?_, fun h => absurd hk (h k hk1 hk2)⟩
    obtain ⟨-, ha, hg⟩ := (live_iff _ r).1 hlive
    rcases hdead with ⟨-, hd⟩ | hc
    · rw [ha] at hd
      cases hd
    · -- the slot was issued again, under another generation
      have h1 := (@gen_eq _ _ env c es _ hn r.idx).2 (by omega)
      have h2 := @issueCount_mono _ _ env c es r.idx _ _ hn
      have h3 := hfew r.idx
      have h4 := ofNat_inj_of_lt (by omega) (by omega)
        ((gen_of_issuedAt hm).symm.trans (hg.symm.trans h1))
      omega

end

/-- A message under a dead handle changes nothing. -/
theorem handle_of_not_live (env : Env F) {s : State F} {r : RxRef} (h : s.live r = false)
    (now : Instant) (heard : ℕ → F) {m : ShardMsg F} (hm : m.handle = some r) :
    (handle env s now heard m).1 = s := by
  cases m with
  | addReceiver info => cases hm
  | removeReceiver r' =>
    cases hm
    exact removeReceiver_of_not_live s h
  | sync r' et ot em om at' =>
    cases hm
    exact onSync_of_not_live env h now et ot em om at'
  | mlat r' t m at' =>
    cases hm
    exact onMlat_of_not_live env h now t m at'
  | clockReset r' =>
    cases hm
    show s.clockReset r = s
    unfold State.clockReset
    rw [h]
    rfl
  | receiverStats r' =>
    cases hm
    show (s.receiverStats r).1 = s
    unfold State.receiverStats
    rw [h]
    rfl
  | stats => cases hm
  | syncJson => cases hm
  | stateJson => cases hm

/-- **A handle dies once and for ever**, in every run that issues no slot more than `2^32` times:
    no two arrivals get the same handle, a handle is live from its issue exactly until an event
    ends it, and a message under a handle that is not live changes nothing. -/
theorem handle_dies_once (env : Env F) (c : Config F) (es : List (Event F))
    (hfew : ∀ i, issueCount env c es es.length i ≤ 2 ^ 32) :
    (∀ m n r, issuedAt env c es m = some r → issuedAt env c es n = some r → m = n) ∧
    (∀ m n r, issuedAt env c es m = some r → m < n → n ≤ es.length →
      ((stateAt env c es n).live r = true ↔ ∀ k, m < k → k < n → ¬ EndsAt env c es k r)) ∧
    (∀ n r now heard msg, (stateAt env c es n).live r = false → msg.handle = some r →
      (handle env (stateAt env c es n) now heard msg).1 = stateAt env c es n) :=
  ⟨fun _ _ _ => issuedAt_inj hfew, fun _ _ _ hm => live_iff_not_ended hfew hm,
    fun _ _ now heard _ h hm => handle_of_not_live env h now heard hm⟩

/-- The same user connects twice: the second connection replaces the first. -/
def reconnects : List (Event ℚ) :=
  [Sample.arrives 1 "Home" (some "a1"), Sample.arrives 2 "Home" (some "a1")]

theorem handle_dies_once_reconnect :
    (stateAt Sample.env Sample.config reconnects 1).live ⟨0, 0⟩ = true ∧
      (stateAt Sample.env Sample.config reconnects 2).live ⟨0, 0⟩ = false := by
  have hfew : ∀ i, issueCount Sample.env Sample.config reconnects reconnects.length i ≤ 2 ^ 32 := by
    intro i
    have h := (List.length_filter_le (fun k => (issuedAt Sample.env Sample.config reconnects k).any
      fun r => decide (r.idx = i)) (List.range reconnects.length))
    exact h.trans (by decide)
  have h := (handle_dies_once Sample.env Sample.config reconnects hfew).2.1 0
  refine ⟨(h 1 ⟨0, 0⟩ (by decide +kernel) (by decide) (by decide)).2 (fun k h1 h2 => by omega), ?_⟩
  rw [← Bool.not_eq_true, h 2 ⟨0, 0⟩ (by decide +kernel) (by decide) (by decide)]
  intro hno
  refine hno 1 (by decide) (by decide) ⟨_, rfl, ?_⟩
  show State.replaced _ _ _ _ = some 0
  decide +kernel

end Shard

end Mlatd
