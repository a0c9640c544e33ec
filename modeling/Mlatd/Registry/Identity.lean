/-
  Who a newcomer is (state.rs, add_receiver): whom an arrival may displace, and whether a feeder
  ever holds two slots.

  `identify_cases` splits the identity rules into the plain name and the alias. A live holder is
  displaced only by a newcomer with its uuid; two empty uuids count as one here, which is the one
  exception (`keeps_live_iff`). A feeder's reconnect under a free plain name does not look for
  the alias its previous connection may hold: a run never gives a feeder two slots exactly when
  no arrival is in that position (`one_slot_iff`).
-/
import Mlatd.Registry.Handles

namespace Mlatd

variable {F : Type} [F64 F]

namespace State

/-! ## The two names -/

/-- The plain name is open to the newcomer: free, or held by itself or by a quiet connection. -/
def PlainOpen (s : State F) (now : Instant) (heard : ℕ → F) (info : ReceiverInfo F) : Prop :=
  ∀ old, s.byUser.lookup info.user = some old →
    sameFeeder (s.receiver old).uuid info.uuid = true ∨ s.holderLive now heard old = false

/-- The alias is open to a newcomer of uuid `u`: free, or held by its twin or by a quiet
    connection. -/
def AliasOpen (s : State F) (now : Instant) (heard : ℕ → F) (info : ReceiverInfo F)
    (u : String) : Prop :=
  ∀ held, s.byUser.lookup (aliasOf info.user u) = some held →
    (s.receiver held).uuid = some u ∨ s.holderLive now heard held = false

theorem ne_empty_of_tag {u : String} (h : uuidTag u ≠ "") : u ≠ "" := by
  rintro rfl
  exact h (by decide)

theorem aliasOf_ne (user uuid : String) : aliasOf user uuid ≠ user := by
  intro h
  have h1 := congrArg String.length h
  unfold aliasOf at h1
  rw [String.length_append, String.length_append] at h1
  have h2 : ("-" : String).length = 1 := by decide
  omega

/-- **The identity rules, by the name they lead to.** -/
theorem identify_cases {s : State F} {now : Instant} {heard : ℕ → F} {info : ReceiverInfo F} :
    (s.PlainOpen now heard info ∧
      s.identify now heard info = some (s.byUser.lookup info.user, info.user)) ∨
    ¬ s.PlainOpen now heard info ∧
      (s.identify now heard info = none ∨
        ∃ u, info.uuid = some u ∧ uuidTag u ≠ "" ∧ s.AliasOpen now heard info u ∧
          s.identify now heard info =
            some (s.byUser.lookup (aliasOf info.user u), aliasOf info.user u)) := by
  unfold identify PlainOpen AliasOpen
  cases hu : s.byUser.lookup info.user with
  | none => exact Or.inl ⟨(fun old h => by cases h), rfl⟩
  | some old =>
    dsimp only
    by_cases hc : (!sameFeeder (s.receiver old).uuid info.uuid && s.holderLive now heard old) = true
    · rw [if_pos hc]
      simp only [Bool.and_eq_true, Bool.not_eq_true'] at hc
      refine Or.inr ⟨fun h => ?_, ?_⟩
      · rcases h old rfl with h1 | h1
        · rw [h1] at hc
          cases hc.1
        · rw [h1] at hc
          cases hc.2
      · cases hf : info.uuid.filter fun u => !u.isEmpty with
        | none => exact Or.inl rfl
        | some u =>
          obtain ⟨h1, -⟩ := Option.filter_eq_some_iff.1 hf
          dsimp only
          by_cases ht : (uuidTag u).isEmpty = true
          · rw [if_pos ht]
            exact Or.inl rfl
          · rw [if_neg ht]
            have htag : uuidTag u ≠ "" := by simpa using ht
            cases ha : s.byUser.lookup (aliasOf info.user u) with
            | none =>
              refine Or.inr ⟨u, h1, htag, ?_, ?_⟩
              · intro held h
                rw [ha] at h
                cases h
              · rw [ha]
            | some held =>
              dsimp only
              by_cases hd : (!decide ((s.receiver held).uuid = some u) &&
                  s.holderLive now heard held) = true
              · rw [if_pos hd]
                exact Or.inl rfl
              · rw [if_neg hd]
                refine Or.inr ⟨u, h1, htag, ?_, ?_⟩
                · rintro held' h
                  rw [ha] at h
                  cases h
                  by_contra hor
                  rw [not_or] at hor
                  exact hd (by simp [hor.1, hor.2])
                · rw [ha]
    · rw [if_neg hc]
      refine Or.inl ⟨?_, rfl⟩
      rintro old' h
      cases h
      by_contra h
      rw [not_or] at h
      exact hc (by simp [h.1, h.2])

theorem identify_of_plainOpen {s : State F} {now : Instant} {heard : ℕ → F}
    {info : ReceiverInfo F} (h : s.PlainOpen now heard info) :
    s.identify now heard info = some (s.byUser.lookup info.user, info.user) := by
  rcases @identify_cases _ _ s now heard info with ⟨-, hid⟩ | ⟨hno, -⟩
  · exact hid
  · exact absurd h hno

/-- A feeder's arrival over its own live connection takes the same slot, under the next
    generation. -/
theorem addReceiver_of_sameFeeder {s : State F} (wf : WellFormed s) (now : Instant)
    (heard : ℕ → F) {info : ReceiverInfo F} {i : ℕ} (hi : s.byUser.lookup info.user = some i)
    (hsame : sameFeeder (s.receiver i).uuid info.uuid = true) :
    (s.addReceiver now heard info).2 = some ⟨i, s.gen i + 1⟩ ∧
      (s.addReceiver now heard info).1.isAlive i = true ∧
      (s.addReceiver now heard info).1.receiver i = info ∧
      (s.addReceiver now heard info).1.gen i = s.gen i + 1 := by
  have hopen : s.PlainOpen now heard info := fun old ho => by
    obtain rfl : i = old := Option.some.inj (hi.symm.trans ho)
    exact Or.inl hsame
  have hadd : s.addReceiver now heard info =
      (((s.evict i).issue info).1, some ((s.evict i).issue info).2) := by
    unfold addReceiver
    rw [identify_of_plainOpen hopen, hi]
  have halive : s.isAlive i = true := ((wf.byUser _ i).1 hi).1
  have hf := evict_frees wf halive
  have wf0 := hf.wellFormed wf
  have hissue := issue_issues (s.evict i) info
  -- the slot just freed is the last of the free list
  have hidx : ((s.evict i).issue info).2.idx = i := by
    rcases hissue.slot with ⟨h1, -⟩ | ⟨h1, -⟩
    · rw [hf.freeSlots, List.getLast?_concat] at h1
      exact (Option.some.inj h1).symm
    · rw [hf.freeSlots] at h1
      exact absurd h1 (by simp)
  rw [hidx] at hissue
  have hgen : ((s.evict i).issue info).1.gen i = s.gen i + 1 := by
    rw [hissue.gen wf0, if_pos ⟨rfl, hf.receivers ▸ hf.lt⟩, hf.gen]
  rw [hadd]
  refine ⟨?_, ?_, ?_, hgen⟩
  · have h1 := issue_gen (s.evict i) info
    rw [hidx, hgen] at h1
    exact congrArg some (congrArg₂ RxRef.mk hidx h1.symm)
  · rw [hissue.isAlive wf0, if_pos rfl]
  · rw [hissue.receiver wf0, if_pos rfl]

/-! ## Displacement -/

/-- The newcomer displaces no live connection but one of its own non-empty uuid. -/
def KeepsLive (s : State F) (now : Instant) (heard : ℕ → F) (info : ReceiverInfo F) : Prop :=
  ∀ j, s.holderLive now heard j = true →
    (s.addReceiver now heard info).1.live (Shard.holder s j) = true ∨
      ∃ u, u ≠ "" ∧ info.uuid = some u ∧ (s.receiver j).uuid = some u

/-- A live connection of the newcomer's name, and neither of the two has more than an empty
    uuid. -/
def EmptyTwins (s : State F) (now : Instant) (heard : ℕ → F) (info : ReceiverInfo F) : Prop :=
  ∃ i, s.byUser.lookup info.user = some i ∧ s.holderLive now heard i = true ∧
    (s.receiver i).uuid = some "" ∧ info.uuid = some ""

theorem isAlive_of_holderLive {s : State F} {now : Instant} {heard : ℕ → F} {i : ℕ}
    (h : s.holderLive now heard i = true) : s.isAlive i = true := by
  unfold holderLive at h
  rw [Bool.and_eq_true] at h
  exact h.1

theorem sameFeeder_iff {a b : Option String} :
    sameFeeder a b = true ↔ ∃ u, a = some u ∧ b = some u := by
  cases a with
  | none => simp [sameFeeder]
  | some x =>
    cases b with
    | none => simp [sameFeeder]
    | some y =>
      constructor
      · intro h
        have hxy : x = y := by simpa [sameFeeder] using h
        exact ⟨x, rfl, by rw [hxy]⟩
      · rintro ⟨u, h1, h2⟩
        cases h1
        cases h2
        simp [sameFeeder]

/-- A live slot that is not replaced is still held under its handle. -/
theorem live_of_not_replaced (env : Env F) {s : State F} (wf : WellFormed s) {now : Instant}
    {heard : ℕ → F} {info : ReceiverInfo F} {j : ℕ} (hj : s.isAlive j = true)
    (hrep : s.replaced now heard info ≠ some j) :
    (s.addReceiver now heard info).1.live (Shard.holder s j) = true := by
  cases Shard.slotStep env wf (.msg now heard (.addReceiver info)) j with
  | issue r h hi hlen halive hgen hr hfree =>
    rcases hfree with h1 | h1
    · rw [hj] at h1
      cases h1
    · exact absurd h1 hrep
  | keep h hlen hgen halive hends =>
    exact (live_iff _ _).2 ⟨hlen.2 (wf.lt hj), halive.trans hj, hgen⟩
  | free h hlen hgen hbefore hafter hends => exact absurd hends hrep

/-- A replaced slot is no longer held under its handle. -/
theorem not_live_of_replaced (env : Env F) {s : State F} (wf : WellFormed s) {now : Instant}
    {heard : ℕ → F} {info : ReceiverInfo F} {j : ℕ} (hj : s.isAlive j = true)
    (hrep : s.replaced now heard info = some j) :
    (s.addReceiver now heard info).1.live (Shard.holder s j) = false := by
  rw [← Bool.not_eq_true, live_iff]
  rintro ⟨-, ha, hg⟩
  cases Shard.slotStep env wf (.msg now heard (.addReceiver info)) j with
  | issue r h hi hlen halive hgen hr hfree =>
    rw [if_pos (wf.lt hj)] at hr
    have h1 : s.gen j + 1 = s.gen j := hr.symm.trans (hgen.symm.trans hg)
    exact absurd h1 (by simp)
  | keep h hlen hgen halive hends => exact absurd hrep (hends hj)
  | free h hlen hgen hbefore hafter hends =>
    have h1 : (s.addReceiver now heard info).1.isAlive j = true := ha
    rw [show (s.addReceiver now heard info).1.isAlive j = false from hafter] at h1
    cases h1

theorem keepsLive_iff (env : Env F) {s : State F} (wf : WellFormed s) (now : Instant)
    (heard : ℕ → F) (info : ReceiverInfo F) :
    s.KeepsLive now heard info ↔ ¬ s.EmptyTwins now heard info := by
  constructor
  · rintro h ⟨i, hu, hl, hi, hn⟩
    have hsame : sameFeeder (s.receiver i).uuid info.uuid = true := by rw [hi, hn]; rfl
    have hrep : s.replaced now heard info = some i := by
      rcases @identify_cases _ _ s now heard info with
        ⟨-, hid⟩ | ⟨hno, -⟩
      · rw [Shard.replaced_of_identify hid]
        exact hu
      · exact absurd (fun old ho => Or.inl (by rw [hu] at ho; cases ho; exact hsame)) hno
    rcases h i hl with h1 | ⟨u, hne, h1, -⟩
    · rw [not_live_of_replaced env wf (isAlive_of_holderLive hl) hrep] at h1
      cases h1
    · rw [hn] at h1
      cases h1
      exact hne rfl
  · intro h j hl
    by_cases hrep : s.replaced now heard info = some j
    · right
      rcases @identify_cases _ _ s now heard info with
        ⟨hopen, hid⟩ | ⟨-, hid | ⟨u, hn, htag, halias, hid⟩⟩
      · rw [Shard.replaced_of_identify hid] at hrep
        have hu : s.byUser.lookup info.user = some j := hrep
        rcases hopen j hu with h1 | h1
        · obtain ⟨u, h2, h3⟩ := sameFeeder_iff.1 h1
          refine ⟨u, ?_, h3, h2⟩
          rintro rfl
          exact h ⟨j, hu, hl, h2, h3⟩
        · rw [hl] at h1
          cases h1
      · rw [Shard.replaced_of_identify hid] at hrep
        cases hrep
      · rw [Shard.replaced_of_identify hid] at hrep
        refine ⟨u, ne_empty_of_tag htag, hn, (halias j hrep).resolve_right fun h1 => ?_⟩
        rw [hl] at h1
        cases h1
    · exact Or.inl (live_of_not_replaced env wf (isAlive_of_holderLive hl) hrep)

/-- **Whom a newcomer may displace**: in every reachable state it displaces no live connection but
    one of its own uuid, exactly when it and the live holder of its name do not both present an
    empty uuid. -/
theorem keeps_live_iff (env : Env F) (c : Shard.Config F) (es : List (Shard.Event F))
    (now : Instant) (heard : ℕ → F) (info : ReceiverInfo F) :
    (Shard.run env (Shard.boot c) es).KeepsLive now heard info ↔
      ¬ (Shard.run env (Shard.boot c) es).EmptyTwins now heard info :=
  keepsLive_iff env (run_wellFormed env c es) now heard info

/-- Two feeders named "Home" whose handshakes carry an empty uuid: the second takes the slot of
    the first, which was heard a second ago. -/
theorem empty_uuid_displaces :
    ¬ ∀ (es : List (Shard.Event ℚ)) (now : Instant) (heard : ℕ → ℚ) (info : ReceiverInfo ℚ),
      (Shard.run Sample.env (Shard.boot Sample.config) es).KeepsLive now heard info := by
  intro h
  have h1 := h [Sample.arrives 1 "Home" (some "")] (Sample.seconds 3) (fun _ => 2)
    (Sample.feeder "Home" (some ""))
  rw [keepsLive_iff Sample.env (run_wellFormed _ _ _)] at h1
  refine h1 ⟨0, ?_, ?_, ?_, rfl⟩
  · decide +kernel
  · decide +kernel
  · decide +kernel

/-! ## One feeder, one slot -/

/-- No two live slots carry one non-empty uuid. -/
def OneSlot (s : State F) : Prop :=
  ∀ i j u, u ≠ "" → s.isAlive i = true → s.isAlive j = true →
    (s.receiver i).uuid = some u → (s.receiver j).uuid = some u → i = j

/-- A non-empty uuid is presented with the name `nameOf` gives it. -/
def Presents (nameOf : String → String) : Shard.Event F → Prop
  | .msg _ _ (.addReceiver info) => ∀ u, info.uuid = some u → u ≠ "" → info.user = nameOf u
  | _ => True

/-- An arrival to which the plain name is open has no earlier connection under the alias. -/
def NoAliasHeld (s : State F) : Shard.Event F → Prop
  | .msg now heard (.addReceiver info) =>
    ∀ u, info.uuid = some u → u ≠ "" → s.PlainOpen now heard info →
      ∀ held, s.byUser.lookup (aliasOf info.user u) = some held → (s.receiver held).uuid ≠ some u
  | _ => True

/-- A live slot with a non-empty uuid is named as its feeder is, or by the feeder's alias. -/
def NamedBy (nameOf : String → String) (s : State F) : Prop :=
  ∀ i u, u ≠ "" → s.isAlive i = true → (s.receiver i).uuid = some u →
    (s.receiver i).user = nameOf u ∨ (s.receiver i).user = aliasOf (nameOf u) u

theorem receiver_of_sameSlots {s s' : State F} (h : SameSlots s s') (i : ℕ) :
    s'.receiver i = s.receiver i := by
  unfold receiver
  rw [h.receivers]

theorem OneSlot.of_alive {s s' : State F} (h : OneSlot s)
    (ha : ∀ i, s'.isAlive i = true → s.isAlive i = true ∧ s'.receiver i = s.receiver i) :
    OneSlot s' := by
  intro i j u hne hi hj hiu hju
  obtain ⟨hi1, hi2⟩ := ha i hi
  obtain ⟨hj1, hj2⟩ := ha j hj
  exact h i j u hne hi1 hj1 (hi2 ▸ hiu) (hj2 ▸ hju)

theorem NamedBy.of_alive {nameOf : String → String} {s s' : State F} (h : NamedBy nameOf s)
    (ha : ∀ i, s'.isAlive i = true → s.isAlive i = true ∧ s'.receiver i = s.receiver i) :
    NamedBy nameOf s' := by
  intro i u hne hi hiu
  obtain ⟨hi1, hi2⟩ := ha i hi
  rw [hi2] at hiu ⊢
  exact h i u hne hi1 hiu

/-- A step that is no arrival leaves live slots that were live, with their receivers. -/
theorem alive_of_no_arrival (env : Env F) (s : State F) {e : Shard.Event F}
    (he : ∀ now heard info, e ≠ .msg now heard (.addReceiver info)) (i : ℕ)
    (h : (Shard.step env s e).isAlive i = true) :
    s.isAlive i = true ∧ (Shard.step env s e).receiver i = s.receiver i := by
  have hquiet : e.isQuiet = true →
      s.isAlive i = true ∧ (Shard.step env s e).receiver i = s.receiver i := by
    intro hq
    have hs := step_sameSlots env s hq
    exact ⟨hs.isAlive i ▸ h, receiver_of_sameSlots hs i⟩
  cases e with
  | sweep => exact hquiet rfl
  | msg now heard m =>
    cases m with
    | addReceiver info => exact absurd rfl (he now heard info)
    | removeReceiver r =>
      have hstep : Shard.step env s (.msg now heard (.removeReceiver r)) = s.removeReceiver r := rfl
      rw [hstep] at h ⊢
      cases hl : s.live r with
      | false =>
        rw [removeReceiver_of_not_live s hl] at h ⊢
        exact ⟨h, rfl⟩
      | true =>
        have hf := removeReceiver_frees s hl
        rw [hf.isAlive] at h
        split at h
        · cases h
        · exact ⟨h, hf.receiver i⟩
    | _ => exact hquiet rfl

/-- The state an arrival is issued in: the old one, less the holder of the newcomer's name. -/
theorem alive_before_issue {s s0 : State F} {user : String} (wf : WellFormed s)
    (h0 : s0 = s ∨ ∃ i, s.isAlive i = true ∧ (s.receiver i).user = user ∧ Frees s s0 i)
    (hu : s0.byUser.lookup user = none) (i : ℕ) :
    s0.isAlive i = true ↔ s.isAlive i = true ∧ (s.receiver i).user ≠ user := by
  rcases h0 with rfl | ⟨j, ha, hn, hf⟩
  · constructor
    · refine fun h => ⟨h, ?_⟩
      rintro rfl
      rw [wf.lookup_user h] at hu
      cases hu
    · exact fun h => h.1
  · rw [hf.isAlive]
    by_cases hij : i = j
    · rw [if_pos hij, hij]
      simp [hn]
    · rw [if_neg hij]
      refine ⟨fun h => ⟨h, fun h2 => hij (wf.user_inj h ha (h2.trans hn.symm))⟩, fun h => h.1⟩

theorem receiver_before_issue {s s0 : State F} {user : String}
    (h0 : s0 = s ∨ ∃ i, s.isAlive i = true ∧ (s.receiver i).user = user ∧ Frees s s0 i) (i : ℕ) :
    s0.receiver i = s.receiver i := by
  rcases h0 with rfl | ⟨j, -, -, hf⟩
  · rfl
  · exact hf.receiver i

/-- **After an arrival**: the newcomer's slot, and the live slots of every other name. -/
theorem addReceiver_slots {s : State F} (wf : WellFormed s) {now : Instant} {heard : ℕ → F}
    {info : ReceiverInfo F} {replaced : Option ℕ} {user : String}
    (hid : s.identify now heard info = some (replaced, user)) :
    ∃ idx, (s.isAlive idx = false ∨ (s.receiver idx).user = user) ∧
      (∀ i, (s.addReceiver now heard info).1.isAlive i = true ↔
        i = idx ∨ s.isAlive i = true ∧ (s.receiver i).user ≠ user) ∧
      (∀ i, (s.addReceiver now heard info).1.receiver i =
        if i = idx then { info with user := user } else s.receiver i) := by
  have hsome : ∃ r, (s.addReceiver now heard info).2 = some r := by
    unfold addReceiver
    rw [hid]
    exact ⟨_, rfl⟩
  obtain ⟨r, hr⟩ := hsome
  rcases addReceiver_cases s now heard info with ⟨h1, -⟩ | ⟨user', hcase⟩
  · rw [hid] at h1
    cases h1
  obtain ⟨s0, h0, wf0, hu, hi⟩ : ∃ s0,
      (s0 = s ∨ ∃ i, s.isAlive i = true ∧ (s.receiver i).user = user ∧ Frees s s0 i) ∧
      WellFormed s0 ∧ s0.byUser.lookup user = none ∧
      ∃ idx, Issues s0 (s.addReceiver now heard info).1 idx { info with user := user } := by
    rcases hcase with ⟨h1, hu, h2⟩ | ⟨i, h1, hu, h2⟩
    · rw [hid] at h1
      cases h1
      rw [h2]
      exact ⟨s, Or.inl rfl, wf, hu, _, issue_issues s _⟩
    · rw [hid] at h1
      cases h1
      obtain ⟨ha, hn⟩ := (wf.byUser user i).1 hu
      have hf := evict_frees wf ha
      rw [h2]
      refine ⟨s.evict i, Or.inr ⟨i, ha, hn, hf⟩, hf.wellFormed wf, ?_, _, issue_issues _ _⟩
      rw [hf.lookup_byUser wf, if_pos hn.symm]
  obtain ⟨idx, hi⟩ := hi
  have halive := alive_before_issue wf h0 hu
  refine ⟨idx, ?_, fun i => ?_, fun i => ?_⟩
  · have hdead := hi.dead wf0
    by_contra hno
    rw [not_or] at hno
    rw [(halive idx).2 ⟨by simpa using hno.1, hno.2⟩] at hdead
    cases hdead
  · rw [hi.isAlive wf0]
    by_cases hx : i = idx
    · simp [hx]
    · rw [if_neg hx, halive]
      simp [hx]
  · rw [hi.receiver wf0, receiver_before_issue h0]

theorem boot_oneSlot (c : Shard.Config F) : OneSlot (Shard.boot c) := by
  intro i j u _ hi
  simp [Shard.boot, new, isAlive] at hi

theorem boot_namedBy (nameOf : String → String) (c : Shard.Config F) :
    NamedBy nameOf (Shard.boot c) := by
  intro i u _ hi
  simp [Shard.boot, new, isAlive] at hi

/-- The name an arrival is let in under is its feeder's, or the alias. -/
theorem identify_user {s : State F} {now : Instant} {heard : ℕ → F} {info : ReceiverInfo F}
    {replaced : Option ℕ} {user : String}
    (hid : s.identify now heard info = some (replaced, user)) :
    user = info.user ∧ s.PlainOpen now heard info ∨
      ¬ s.PlainOpen now heard info ∧ ∃ u, info.uuid = some u ∧ user = aliasOf info.user u := by
  rcases @identify_cases _ _ s now heard info with ⟨hopen, h⟩ | ⟨hno, h | ⟨u, hn, -, -, h⟩⟩
  · rw [hid] at h
    cases h
    exact Or.inl ⟨rfl, hopen⟩
  · rw [hid] at h
    cases h
  · rw [hid] at h
    cases h
    exact Or.inr ⟨hno, u, hn, rfl⟩

theorem addReceiver_of_refused {s : State F} {now : Instant} {heard : ℕ → F}
    {info : ReceiverInfo F} (hid : s.identify now heard info = none) :
    (s.addReceiver now heard info).1 = s := by
  unfold addReceiver
  rw [hid]

theorem addReceiver_namedBy {nameOf : String → String} {s : State F} (wf : WellFormed s)
    (hs : NamedBy nameOf s) {now : Instant} {heard : ℕ → F} {info : ReceiverInfo F}
    (hp : ∀ u, info.uuid = some u → u ≠ "" → info.user = nameOf u) :
    NamedBy nameOf (s.addReceiver now heard info).1 := by
  cases hid : s.identify now heard info with
  | none =>
    rw [addReceiver_of_refused hid]
    exact hs
  | some p =>
    obtain ⟨replaced, user⟩ := p
    obtain ⟨idx, -, halive, hrec⟩ := addReceiver_slots wf hid
    intro i u hne hi hiu
    rw [hrec] at hiu ⊢
    by_cases hx : i = idx
    · rw [if_pos hx] at hiu ⊢
      have hname := hp u hiu hne
      rcases identify_user hid with ⟨h1, -⟩ | ⟨-, u', h2, h1⟩
      · exact Or.inl (h1.trans hname)
      · have huu : u' = u := Option.some.inj (h2.symm.trans hiu)
        right
        rw [← hname, ← huu]
        exact h1
    · rw [if_neg hx] at hiu ⊢
      rcases (halive i).1 hi with h1 | ⟨h1, -⟩
      · exact absurd h1 hx
      · exact hs i u hne h1 hiu

/-- **An arrival keeps feeders on one slot exactly when no alias of its own is left behind.** -/
theorem addReceiver_oneSlot_iff {nameOf : String → String} {s : State F} (wf : WellFormed s)
    (hs : NamedBy nameOf s) (hone : OneSlot s) {now : Instant} {heard : ℕ → F}
    {info : ReceiverInfo F} (hp : ∀ u, info.uuid = some u → u ≠ "" → info.user = nameOf u) :
    OneSlot (s.addReceiver now heard info).1 ↔
      ∀ u, info.uuid = some u → u ≠ "" → s.PlainOpen now heard info →
        ∀ held, s.byUser.lookup (aliasOf info.user u) = some held →
          (s.receiver held).uuid ≠ some u := by
  cases hid : s.identify now heard info with
  | none =>
    rw [addReceiver_of_refused hid]
    refine ⟨fun _ u _ _ hopen => ?_, fun _ => hone⟩
    rcases @identify_cases _ _ s now heard info with ⟨-, h⟩ | ⟨hno, -⟩
    · rw [hid] at h
      cases h
    · exact absurd hopen hno
  | some p =>
    obtain ⟨replaced, user⟩ := p
    obtain ⟨idx, hidx, halive, hrec⟩ := addReceiver_slots wf hid
    constructor
    · -- the alias' holder and the newcomer would both carry the uuid
      intro h u hn hne hopen held hheld hu
      obtain ⟨ha, hname⟩ := (wf.byUser _ held).1 hheld
      have huser : user = info.user := by
        rcases identify_user hid with ⟨h1, -⟩ | ⟨hno, -⟩
        · exact h1
        · exact absurd hopen hno
      have hdiff : (s.receiver held).user ≠ user := by
        rw [hname, huser]
        exact aliasOf_ne _ _
      have hx : held ≠ idx := by
        rintro rfl
        rcases hidx with h1 | h1
        · rw [ha] at h1
          cases h1
        · exact hdiff h1
      refine hx (h held idx u hne ((halive held).2 (Or.inr ⟨ha, hdiff⟩))
        ((halive idx).2 (Or.inl rfl)) ?_ ?_)
      · rw [hrec, if_neg hx]
        exact hu
      · rw [hrec, if_pos rfl]
        exact hn
    · intro hc
      -- a live slot of the newcomer's uuid would be under the plain name or under the alias
      have hnew : ∀ i u, u ≠ "" → i ≠ idx → (s.addReceiver now heard info).1.isAlive i = true →
          (s.receiver i).uuid = some u → info.uuid = some u → False := by
        intro i u hne hx hi hiu hn
        obtain ⟨ha, hdiff⟩ : s.isAlive i = true ∧ (s.receiver i).user ≠ user :=
          ((halive i).1 hi).resolve_left hx
        have hname := hs i u hne ha hiu
        rw [← hp u hn hne] at hname
        rcases identify_user hid with ⟨huser, hopen⟩ | ⟨hno, u', hu', huser⟩
        · rcases hname with h1 | h1
          · exact hdiff (h1.trans huser.symm)
          · exact hc u hn hne hopen i ((wf.byUser _ i).2 ⟨ha, h1⟩) hiu
        · have huu : u' = u := Option.some.inj (hu'.symm.trans hn)
          rcases hname with h1 | h1
          · refine hno fun old hold => Or.inl ?_
            have hi' := (wf.byUser info.user i).2 ⟨ha, h1⟩
            have holdi : old = i := Option.some.inj (hold.symm.trans hi')
            rw [holdi]
            exact sameFeeder_iff.2 ⟨u, hiu, hn⟩
          · exact hdiff (by rw [h1, huser, huu])
      intro i j u hne hi hj hiu hju
      rw [hrec] at hiu hju
      by_cases hx : i = idx
      · by_cases hy : j = idx
        · rw [hx, hy]
        · rw [if_pos hx] at hiu
          rw [if_neg hy] at hju
          exact (hnew j u hne hy hj hju hiu).elim
      · rw [if_neg hx] at hiu
        by_cases hy : j = idx
        · rw [if_pos hy] at hju
          exact (hnew i u hne hx hi hiu hju).elim
        · rw [if_neg hy] at hju
          exact hone i j u hne (((halive i).1 hi).resolve_left hx).1
            (((halive j).1 hj).resolve_left hy).1 hiu hju

theorem step_namedBy (env : Env F) {nameOf : String → String} {s : State F} (wf : WellFormed s)
    (hs : NamedBy nameOf s) {e : Shard.Event F} (hp : Presents nameOf e) :
    NamedBy nameOf (Shard.step env s e) := by
  by_cases he : ∃ now heard info, e = .msg now heard (.addReceiver info)
  · obtain ⟨now, heard, info, rfl⟩ := he
    exact addReceiver_namedBy wf hs hp
  · refine hs.of_alive fun i => alive_of_no_arrival env s (fun now heard info h => ?_) i
    exact he ⟨now, heard, info, h⟩

theorem step_oneSlot_iff (env : Env F) {nameOf : String → String} {s : State F}
    (wf : WellFormed s) (hs : NamedBy nameOf s) (hone : OneSlot s) {e : Shard.Event F}
    (hp : Presents nameOf e) : OneSlot (Shard.step env s e) ↔ NoAliasHeld s e := by
  by_cases he : ∃ now heard info, e = .msg now heard (.addReceiver info)
  · obtain ⟨now, heard, info, rfl⟩ := he
    exact addReceiver_oneSlot_iff wf hs hone hp
  · have h1 : OneSlot (Shard.step env s e) :=
      hone.of_alive fun i => alive_of_no_arrival env s
        (fun now heard info h => he ⟨now, heard, info, h⟩) i
    have h2 : NoAliasHeld s e := by
      cases e with
      | sweep => trivial
      | msg now heard m =>
        cases m with
        | addReceiver info => exact absurd ⟨now, heard, info, rfl⟩ he
        | _ => trivial
    exact ⟨fun _ => h2, fun _ => h1⟩

/-- **One feeder, one slot**, in a run that presents each non-empty uuid with one name: no state
    of the run has two live slots of one non-empty uuid exactly when no arrival finds the plain
    name open while an earlier connection of its feeder is live under the alias. -/
theorem one_slot_iff (env : Env F) (c : Shard.Config F) (nameOf : String → String)
    (es : List (Shard.Event F)) (hp : ∀ e ∈ es, Presents nameOf e) :
    (∀ n, OneSlot (Shard.stateAt env c es n)) ↔
      Run.Steps (Shard.step env) NoAliasHeld (Shard.boot c) es := by
  have hI : ∀ s e, Presents nameOf e → WellFormed s ∧ NamedBy nameOf s → OneSlot s →
      OneSlot (Shard.step env s e) →
      WellFormed (Shard.step env s e) ∧ NamedBy nameOf (Shard.step env s e) :=
    fun s e he hs _ _ => ⟨step_wellFormed env s e hs.1, step_namedBy env hs.1 hs.2 he⟩
  have hP : ∀ s e, Presents nameOf e → WellFormed s ∧ NamedBy nameOf s → OneSlot s →
      (OneSlot (Shard.step env s e) ↔ NoAliasHeld s e) :=
    fun s e he hs hone => step_oneSlot_iff env hs.1 hs.2 hone he
  exact Run.forall_take_iff_steps hI hP ⟨boot_wellFormed c, boot_namedBy nameOf c⟩
    (boot_oneSlot c) hp

/-- A feeder takes the alias while another holds its name; the other leaves, and the feeder's
    reconnect takes the plain name beside its own previous connection. -/
def aliasLeftBehind : List (Shard.Event ℚ) :=
  [Sample.arrives 1 "Home" (some "a1"), Sample.arrives 2 "Home" (some "b2"),
    Sample.at' 3 3 (.removeReceiver ⟨0, 0⟩), Sample.arrives 4 "Home" (some "b2")]

theorem aliasLeftBehind_presents : ∀ e ∈ aliasLeftBehind, Presents (fun _ => "Home") e := by
  intro e he
  simp only [aliasLeftBehind, List.mem_cons, List.not_mem_nil, or_false] at he
  rcases he with rfl | rfl | rfl | rfl
  · exact fun _ _ _ => rfl
  · exact fun _ _ _ => rfl
  · trivial
  · exact fun _ _ _ => rfl

theorem reconnect_takes_second_slot :
    ¬ ∀ (nameOf : String → String) (es : List (Shard.Event ℚ)),
      (∀ e ∈ es, Presents nameOf e) → OneSlot (Shard.run Sample.env (Shard.boot Sample.config) es) := by
  intro h
  have h1 := h (fun _ => "Home") aliasLeftBehind aliasLeftBehind_presents 0 1 "b2" (by decide)
    (by decide +kernel) (by decide +kernel) (by decide +kernel) (by decide +kernel)
  cases h1

/-- Two feeders under one name: the second is given an alias. -/
theorem one_slot_two_feeders :
    OneSlot (Shard.stateAt Sample.env Sample.config
      [Sample.arrives 1 "Home" (some "a1"), Sample.arrives 2 "Home" (some "b2")] 2) := by
  have hp : ∀ e ∈ [Sample.arrives 1 "Home" (some "a1"), Sample.arrives 2 "Home" (some "b2")],
      Presents (fun _ => "Home") e :=
    fun e he => aliasLeftBehind_presents e (by
      simp only [aliasLeftBehind, List.mem_cons, List.not_mem_nil, or_false] at he ⊢
      tauto)
  refine (one_slot_iff Sample.env Sample.config _ _ hp).2 ⟨?_, ?_, trivial⟩ 2
  · intro u _ _ _ held hheld
    exact absurd hheld (by simp [Shard.boot, new])
  · rintro u hu - hopen held -
    have hnot := hopen 0 (by decide +kernel)
    exfalso
    revert hnot
    decide +kernel

end State

end Mlatd
