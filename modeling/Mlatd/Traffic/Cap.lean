/-
  The cap on ADS-B aircraft over whole runs (traffic.rs).

  A run is any order of the three calls. An aircraft that is forwarded holds a place of the sync
  set, and keeps it for `syncIdleS` unless it is reported lost: `Places` relates what a window
  forwarded to the places held. An aircraft that is turned away is suppressed, and stays so for
  `suppressS`: `Stopped`. Nothing else is ever suppressed. The suppressed aircraft are never
  requested; they stay out of the sync set in exactly the runs that `apart_iff` names.
-/
import Mlatd.Lib.Run
import Mlatd.Traffic

namespace Mlatd

variable {F : Type} [F64 F]

namespace Traffic

inductive Call (F : Type) where
  | offered (icao : String) (now : F)
  | onSync (icao : String) (now : F)
  | lost (icao : String)

/-- The time a call is made at, if it reads one. -/
def Call.time : Call F → Option F
  | .offered _ now | .onSync _ now => some now
  | .lost _ => none

/-- The state after a call. -/
def step (t : Traffic F) : Call F → Traffic F
  | .offered icao now => (t.offered icao now).1
  | .onSync icao now => (t.onSync icao now).1
  | .lost icao => t.lost icao

/-- What a call answers; `lost` answers nothing. -/
def answer (t : Traffic F) : Call F → Option Bool
  | .offered icao now => some (t.offered icao now).2
  | .onSync icao now => some (t.onSync icao now).2
  | .lost _ => none

/-- The state after the first `n` calls. -/
abbrev stateAt (cap : ℕ) (cs : List (Call F)) (n : ℕ) : Traffic F :=
  Run.exec step (new cap) (cs.take n)

/-! ## What each call does to the sets -/

section
variable (t : Traffic F) (icao : String) (now : F)

/-- The sync set when room has been asked for. -/
def busy : HashMap String F :=
  if t.cap = 0 then t.sync else t.sync.retain fun _ at' => decide (now - at' < syncIdleS)

theorem hasRoom_eq : t.hasRoom now = ({ t with sync := t.busy now },
    decide (t.cap = 0 ∨ (t.busy now).len < t.cap)) := by
  unfold hasRoom busy
  by_cases h : t.cap = 0
  · rw [if_pos h, if_pos h, decide_eq_true (Or.inl h)]
  · rw [if_neg h, if_neg h]
    simp only [h, false_or]

/-- An offer: refused as it stands, refused when room was asked for, or taken. -/
theorem offered_cases :
    ((t.offered icao now).1 = t ∧ (t.offered icao now).2 = false) ∨
    (∃ since, t.suppressed.lookup icao = some since ∧ ¬ now - since < suppressS ∧
      t.offered icao now = ({ t with sync := t.busy now }, false)) ∨
    (icao ∉ t.suppressed ∨
      ∃ since, t.suppressed.lookup icao = some since ∧ ¬ now - since < suppressS) ∧
      (icao ∉ t.requested → t.requested.card < maxRequested) ∧
      ∃ sync, (sync = t.sync ∨ sync = t.busy now) ∧
        t.offered icao now =
          ({ t with
             requested := insert icao t.requested
             sync := sync
             suppressed := t.suppressed.erase icao }, decide (icao ∉ t.requested)) := by
  unfold offered
  split
  · exact Or.inl ⟨rfl, rfl⟩
  split
  · exact Or.inl ⟨rfl, rfl⟩
  next hfull =>
  have hroom : icao ∉ t.requested → t.requested.card < maxRequested := by
    intro h
    by_contra hc
    exact hfull ⟨not_lt.1 hc, h⟩
  cases hs : t.suppressed.lookup icao with
  | none =>
    refine Or.inr (Or.inr ⟨Or.inl (Finmap.lookup_eq_none.1 hs), hroom, t.sync, Or.inl rfl, ?_⟩)
    simp only [request, Finmap.erase_of_lookup_none hs]
  | some since =>
    simp only
    split
    · exact Or.inl ⟨rfl, rfl⟩
    next hlong =>
    rw [hasRoom_eq]
    simp only
    split
    · exact Or.inr (Or.inr ⟨Or.inr ⟨since, rfl, hlong⟩, hroom, t.busy now, Or.inr rfl, rfl⟩)
    · exact Or.inr (Or.inl ⟨since, rfl, hlong, rfl⟩)

/-- A pair: forwarded without a cap, forwarded on a place it holds or gets, or turned away. -/
theorem onSync_cases :
    (t.cap = 0 ∧ t.onSync icao now = (t, true)) ∨
    (t.cap ≠ 0 ∧ icao ∈ t.sync ∧
      t.onSync icao now = ({ t with sync := t.sync.insert icao now }, true)) ∨
    (t.cap ≠ 0 ∧ icao ∉ t.sync ∧ (t.busy now).len < t.cap ∧
      t.onSync icao now = ({ t with sync := (t.busy now).insert icao now }, true)) ∨
    (t.cap ≠ 0 ∧ icao ∉ t.sync ∧ ¬ (t.busy now).len < t.cap ∧
      t.onSync icao now =
        ({ t with
           requested := t.requested.erase icao
           sync := t.busy now
           suppressed := (t.suppressed.retain fun _ at' =>
             decide (now - at' < 10.0 * suppressS)).insert icao now }, false)) := by
  unfold onSync
  split
  · next h => exact Or.inl ⟨h, rfl⟩
  next h =>
  cases hs : t.sync.lookup icao with
  | some at' => exact Or.inr (Or.inl ⟨h, Finmap.mem_iff.2 ⟨at', hs⟩, rfl⟩)
  | none =>
    have hnot : icao ∉ t.sync := Finmap.lookup_eq_none.1 hs
    rw [hasRoom_eq]
    simp only [h, false_or]
    split
    · next hr => exact Or.inr (Or.inr (Or.inl ⟨h, hnot, of_decide_eq_true hr, rfl⟩))
    · next hr =>
      exact Or.inr (Or.inr (Or.inr ⟨h, hnot, fun h => hr (decide_eq_true h), rfl⟩))

theorem lookup_busy {k : String} {at' : F} (h : t.sync.lookup k = some at')
    (hnow : now - at' < syncIdleS) : (t.busy now).lookup k = some at' := by
  unfold busy
  split
  · exact h
  · rw [Finmap.lookup_retain, h, Option.filter_some, if_pos (decide_eq_true hnow)]

theorem mem_of_mem_busy {k : String} (h : k ∈ t.busy now) : k ∈ t.sync := by
  unfold busy at h
  split at h
  · exact h
  · obtain ⟨at', h1, -⟩ := Finmap.mem_retain.1 h
    exact Finmap.mem_iff.2 ⟨at', h1⟩

end

@[simp] theorem step_cap (t : Traffic F) (c : Call F) : (t.step c).cap = t.cap := by
  cases c with
  | lost icao => rfl
  | offered icao now =>
    rcases t.offered_cases icao now with ⟨h, -⟩ | ⟨-, -, -, h⟩ | ⟨-, -, sync, -, h⟩
    · exact congrArg Traffic.cap h
    · rw [step, h]
    · rw [step, h]
  | onSync icao now =>
    rcases t.onSync_cases icao now with ⟨-, h⟩ | ⟨-, -, h⟩ | ⟨-, -, -, h⟩ | ⟨-, -, -, h⟩ <;>
      rw [step, h]

/-! ## The bounds -/

/-- Neither set is over its bound. -/
structure Bounded (t : Traffic F) : Prop where
  sync : t.sync.len ≤ t.cap
  requested : t.requested.card ≤ maxRequested

omit [F64 F] in
theorem new_bounded (cap : ℕ) : (new cap : Traffic F).Bounded :=
  ⟨Nat.zero_le cap, Nat.zero_le maxRequested⟩

theorem step_bounded {t : Traffic F} (h : t.Bounded) (c : Call F) : (t.step c).Bounded := by
  have hbusy (now : F) : (t.busy now).len ≤ t.cap :=
    (Finmap.len_mono fun _ => t.mem_of_mem_busy now).trans h.sync
  cases c with
  | lost icao =>
    exact ⟨(Finmap.len_mono fun _ hk => (Finmap.mem_erase.1 hk).2).trans h.sync,
      (Finset.card_erase_le).trans h.requested⟩
  | offered icao now =>
    rcases t.offered_cases icao now with ⟨h1, -⟩ | ⟨-, -, -, h1⟩ | ⟨-, hroom, sync, hsync, h1⟩
    · rw [step, h1]
      exact h
    · rw [step, h1]
      exact ⟨hbusy now, h.requested⟩
    · rw [step, h1]
      refine ⟨?_, ?_⟩
      · rcases hsync with rfl | rfl
        · exact h.sync
        · exact hbusy now
      · by_cases hin : icao ∈ t.requested
        · rw [Finset.insert_eq_of_mem hin]
          exact h.requested
        · rw [Finset.card_insert_of_notMem hin]
          exact hroom hin
  | onSync icao now =>
    rcases t.onSync_cases icao now with
      ⟨-, h1⟩ | ⟨-, hin, h1⟩ | ⟨-, -, hroom, h1⟩ | ⟨-, -, -, h1⟩
    · rw [step, h1]
      exact h
    · rw [step, h1]
      exact ⟨(Finmap.len_insert_of_mem now hin).trans h.sync, h.requested⟩
    · rw [step, h1]
      exact ⟨(Finmap.len_insert_le icao now _).trans hroom, h.requested⟩
    · rw [step, h1]
      exact ⟨hbusy now, (Finset.card_erase_le).trans h.requested⟩

/-! ## What a window forwards -/

/-- The aircraft whose pair the call brings, when it is forwarded. -/
def forwards (t : Traffic F) : Call F → Finset String
  | .onSync icao now => if (t.onSync icao now).2 then {icao} else ∅
  | _ => ∅

/-- The aircraft that the calls forward. -/
def forwarded : Traffic F → List (Call F) → Finset String
  | _, [] => ∅
  | t, c :: cs => t.forwards c ∪ forwarded (t.step c) cs

/-- Each of the aircraft holds a place of the sync set since one of the times `T`. -/
def Places (T : F → Prop) (acs : Finset String) (t : Traffic F) : Prop :=
  ∀ icao ∈ acs, ∃ at', T at' ∧ t.sync.lookup icao = some at'

/-- Within the idle time and without a lost report, places are kept and the forwarded get one. -/
theorem Places.step {T : F → Prop} (hT : ∀ x y, T x → T y → x - y < syncIdleS)
    {acs : Finset String} {t : Traffic F} (h : Places T acs t) (hcap : t.cap ≠ 0) {c : Call F}
    (hlost : c.time ≠ none) (hc : ∀ now, c.time = some now → T now) :
    Places T (acs ∪ t.forwards c) (t.step c) := by
  have hbusy : ∀ now, c.time = some now → ∀ icao ∈ acs, ∃ at', T at' ∧
      (t.busy now).lookup icao = some at' := by
    intro now hnow icao hin
    obtain ⟨at', hat, h1⟩ := h icao hin
    exact ⟨at', hat, t.lookup_busy now h1 (hT now at' (hc now hnow) hat)⟩
  have hinsert : ∀ (sync : HashMap String F) (icao : String) (now : F), T now →
      (∀ k ∈ acs, ∃ at', T at' ∧ sync.lookup k = some at') →
      ∀ k ∈ acs ∪ {icao}, ∃ at', T at' ∧ (sync.insert icao now).lookup k = some at' := by
    intro sync icao now hnow hsync k hk
    by_cases hki : k = icao
    · exact ⟨now, hnow, by rw [hki, Finmap.lookup_insert]⟩
    · rw [Finmap.lookup_insert_of_ne _ hki]
      refine hsync k ((Finset.mem_union.1 hk).resolve_right fun h1 => hki ?_)
      exact Finset.mem_singleton.1 h1
  cases c with
  | lost icao => exact absurd rfl hlost
  | offered icao now =>
    have hf : t.forwards (.offered icao now) = ∅ := rfl
    rw [hf, Finset.union_empty]
    rcases t.offered_cases icao now with ⟨h1, -⟩ | ⟨-, -, -, h1⟩ | ⟨-, -, sync, hsync, h1⟩
    · rw [Traffic.step, h1]
      exact h
    · rw [Traffic.step, h1]
      exact hbusy now rfl
    · rw [Traffic.step, h1]
      rcases hsync with rfl | rfl
      · exact h
      · exact hbusy now rfl
  | onSync icao now =>
    rw [forwards]
    rcases t.onSync_cases icao now with
      ⟨h1, -⟩ | ⟨-, -, h1⟩ | ⟨-, -, -, h1⟩ | ⟨-, -, -, h1⟩
    · exact absurd h1 hcap
    · rw [Traffic.step, h1, if_pos rfl]
      exact hinsert t.sync icao now (hc now rfl) h
    · rw [Traffic.step, h1, if_pos rfl]
      exact hinsert (t.busy now) icao now (hc now rfl) (hbusy now rfl)
    · rw [Traffic.step, h1, if_neg Bool.false_ne_true, Finset.union_empty]
      exact hbusy now rfl

/-- The aircraft forwarded in a window hold their places at its end. -/
theorem Places.run {T : F → Prop} (hT : ∀ x y, T x → T y → x - y < syncIdleS)
    {acs : Finset String} {t : Traffic F} (h : Places T acs t) (hcap : t.cap ≠ 0)
    {cs : List (Call F)} (hlost : ∀ c ∈ cs, c.time ≠ none)
    (hcs : ∀ c ∈ cs, ∀ now, c.time = some now → T now) :
    Places T (acs ∪ t.forwarded cs) (Run.exec Traffic.step t cs) := by
  induction cs generalizing t acs with
  | nil =>
    rw [forwarded, Finset.union_empty]
    exact h
  | cons c cs ih =>
    have h1 := h.step hT hcap (hlost c List.mem_cons_self) (hcs c List.mem_cons_self)
    rw [forwarded, ← Finset.union_assoc]
    exact ih h1 (by rwa [step_cap]) (fun c' h' => hlost c' (List.mem_cons_of_mem c h'))
      fun c' h' => hcs c' (List.mem_cons_of_mem c h')

/-! ## Who is suppressed -/

/-- A call turns the aircraft away at time `since`. -/
def TurnsAway (t : Traffic F) (c : Call F) (icao : String) (since : F) : Prop :=
  c = .onSync icao since ∧ t.answer c = some false

/-- Only the aircraft that a call turns away are newly suppressed. -/
theorem suppressed_of_step {t : Traffic F} {c : Call F} {icao : String} {since : F}
    (h : (t.step c).suppressed.lookup icao = some since) :
    t.suppressed.lookup icao = some since ∨ t.TurnsAway c icao since := by
  cases c with
  | lost k => exact Or.inl h
  | offered k now =>
    rcases t.offered_cases k now with ⟨h1, -⟩ | ⟨-, -, -, h1⟩ | ⟨-, -, sync, -, h1⟩
    · rw [step, h1] at h
      exact Or.inl h
    · rw [step, h1] at h
      exact Or.inl h
    · rw [step, h1] at h
      simp only at h
      rw [Finmap.lookup_erase_ite] at h
      split at h
      · cases h
      · exact Or.inl h
  | onSync k now =>
    rcases t.onSync_cases k now with ⟨-, h1⟩ | ⟨-, -, h1⟩ | ⟨-, -, -, h1⟩ | ⟨-, -, -, h1⟩
    · rw [step, h1] at h
      exact Or.inl h
    · rw [step, h1] at h
      exact Or.inl h
    · rw [step, h1] at h
      exact Or.inl h
    · rw [step, h1] at h
      simp only at h
      rw [Finmap.lookup_insert_ite] at h
      split at h
      · next hk =>
        cases h
        exact Or.inr ⟨by rw [hk], by rw [answer, h1]⟩
      · rw [Finmap.lookup_retain, Option.filter_eq_some_iff] at h
        exact Or.inl h.1

/-- Every suppressed aircraft was turned away at its time. -/
theorem turnedAway_of_suppressed {t : Traffic F} {cs : List (Call F)} {icao : String} {since : F}
    (h : (Run.exec step t cs).suppressed.lookup icao = some since) :
    t.suppressed.lookup icao = some since ∨
      ∃ m, m < cs.length ∧ ∃ c, cs[m]? = some c ∧
        (Run.exec step t (cs.take m)).TurnsAway c icao since := by
  induction cs generalizing t with
  | nil => exact Or.inl h
  | cons c cs ih =>
    rcases ih h with h1 | ⟨m, hm, c', hc, h1⟩
    · rcases suppressed_of_step h1 with h2 | h2
      · exact Or.inl h2
      · exact Or.inr ⟨0, Nat.succ_pos _, c, rfl, h2⟩
    · exact Or.inr ⟨m + 1, Nat.succ_lt_succ hm, c', hc, h1⟩

/-- An offer of an aircraft that is not suppressed is refused for one of three reasons. -/
theorem offered_refused {t : Traffic F} {icao : String} {now : F} (hs : icao ∉ t.suppressed)
    (h : (t.offered icao now).2 = false) :
    isIcaoText icao = false ∨ icao ∈ t.requested ∨ maxRequested ≤ t.requested.card := by
  have hnone : t.suppressed.lookup icao = none := Finmap.lookup_eq_none.2 hs
  unfold offered at h
  split at h
  · next htext => exact Or.inl htext
  split at h
  · next hfull => exact Or.inr (Or.inr hfull.1)
  rw [hnone] at h
  exact Or.inr (Or.inl (not_not.1 (of_decide_eq_false h)))

/-! ## A suppressed aircraft stays suppressed -/

/-- The times the calls read do not decrease. -/
def Nondecreasing (cs : List (Call ℝ)) : Prop :=
  cs.Pairwise fun c d => ∀ x y, c.time = some x → d.time = some y → x ≤ y

/-- The aircraft has been suppressed, at time `s` or later. -/
def Stopped (icao : String) (s : ℝ) (t : Traffic ℝ) : Prop :=
  ∃ since, s ≤ since ∧ t.suppressed.lookup icao = some since

section
variable {t : Traffic ℝ} {icao : String} {s : ℝ}

theorem Stopped.not_offered (h : Stopped icao s t) {now : ℝ} (hnow : now < s + suppressS) :
    (t.offered icao now).2 = false := by
  obtain ⟨since, hsince, hl⟩ := h
  have hlt : now - since < suppressS := by linarith
  unfold offered
  split
  · rfl
  split
  · rfl
  rw [hl]
  simp only [if_pos hlt]

theorem stopped_of_turnsAway {c : Call ℝ} (h : t.TurnsAway c icao s) :
    Stopped icao s (t.step c) := by
  obtain ⟨rfl, h⟩ := h
  rcases t.onSync_cases icao s with ⟨-, h1⟩ | ⟨-, -, h1⟩ | ⟨-, -, -, h1⟩ | ⟨-, -, -, h1⟩
  · rw [answer, h1] at h
    cases h
  · rw [answer, h1] at h
    cases h
  · rw [answer, h1] at h
    cases h
  · rw [step, h1]
    exact ⟨s, le_refl s, Finmap.lookup_insert _⟩

/-- No call before the suppression runs out lifts it: an offer does not, and a pair that is turned
    away forgets only suppressions that are much older. -/
theorem Stopped.step (h : Stopped icao s t) {c : Call ℝ}
    (hc : ∀ now, c.time = some now → s ≤ now ∧ now < s + suppressS) :
    Stopped icao s (t.step c) := by
  obtain ⟨since, hsince, hl⟩ := h
  cases c with
  | lost k => exact ⟨since, hsince, hl⟩
  | offered k now =>
    have hnow := (hc now rfl).2
    rcases t.offered_cases k now with ⟨h1, -⟩ | ⟨-, -, -, h1⟩ | ⟨hwhy, -, sync, -, h1⟩
    · rw [Traffic.step, h1]
      exact ⟨since, hsince, hl⟩
    · rw [Traffic.step, h1]
      exact ⟨since, hsince, hl⟩
    · rw [Traffic.step, h1]
      refine ⟨since, hsince, ?_⟩
      simp only
      rw [Finmap.lookup_erase_ite, if_neg, hl]
      rintro rfl
      rcases hwhy with hnot | ⟨since', hl', hlong⟩
      · exact hnot (Finmap.mem_iff.2 ⟨since, hl⟩)
      · rw [hl] at hl'
        cases hl'
        exact hlong (by linarith)
  | onSync k now =>
    obtain ⟨hge, hnow⟩ := hc now rfl
    rcases t.onSync_cases k now with ⟨-, h1⟩ | ⟨-, -, h1⟩ | ⟨-, -, -, h1⟩ | ⟨-, -, -, h1⟩
    · rw [Traffic.step, h1]
      exact ⟨since, hsince, hl⟩
    · rw [Traffic.step, h1]
      exact ⟨since, hsince, hl⟩
    · rw [Traffic.step, h1]
      exact ⟨since, hsince, hl⟩
    · rw [Traffic.step, h1]
      by_cases hk : icao = k
      · exact ⟨now, hge, by rw [hk, Finmap.lookup_insert]⟩
      · refine ⟨since, hsince, ?_⟩
        simp only
        rw [Finmap.lookup_insert_of_ne _ hk, Finmap.lookup_retain, hl, Option.filter_some, if_pos]
        have hpos : (0 : ℝ) < suppressS := by norm_num [suppressS]
        exact decide_eq_true (by linarith)

end

/-- An aircraft turned away at a time stays suppressed until `suppressS` later. -/
theorem stopped_run {cap : ℕ} {cs : List (Call ℝ)} (hcs : Nondecreasing cs) {icao : String}
    {s now : ℝ} {m n : ℕ} (hmn : m < n) {d : Call ℝ}
    (hm : cs[m]? = some (.onSync icao s)) (hd : cs[n]? = some d) (hnow : d.time = some now)
    (haway : (stateAt cap cs m).answer (.onSync icao s) = some false) (hlt : now < s + suppressS) :
    Stopped icao s (stateAt cap cs n) := by
  obtain ⟨hm', hm⟩ := List.getElem?_eq_some_iff.1 hm
  obtain ⟨hn', hd⟩ := List.getElem?_eq_some_iff.1 hd
  have horder := List.pairwise_iff_getElem.1 hcs
  have h : ∀ k, m + 1 ≤ k → k ≤ n → Stopped icao s (stateAt cap cs k) := by
    intro k hk
    induction k, hk using Nat.le_induction with
    | base =>
      intro _
      rw [stateAt, Run.exec_take_succ _ _ _ hm', hm]
      exact stopped_of_turnsAway ⟨rfl, haway⟩
    | succ k hk ih =>
      intro hkn
      have hk' : k < cs.length := by omega
      rw [stateAt, Run.exec_take_succ _ _ _ hk']
      refine (ih (by omega)).step fun x hx => ⟨?_, ?_⟩
      · exact horder m k hm' hk' (by omega) s x (by rw [hm]; rfl) hx
      · have hxn : x ≤ now := horder k n hk' hn' (by omega) x now hx (by rw [hd, hnow])
        linarith
  exact h n hmn (le_refl n)

/-- **The cap holds over every run.** The sets keep to their bounds; a window within the idle time
    forwards at most `cap` aircraft; one never turned away is refused only as malformed, as
    requested already or because the requested set is full; one turned away is not started again
    before `suppressS`. -/
theorem cap_holds (cap : ℕ) (hcap : 0 < cap) (cs : List (Call ℝ)) (hcs : Nondecreasing cs) :
    (∀ n, (stateAt cap cs n).sync.len ≤ cap ∧ (stateAt cap cs n).requested.card ≤ maxRequested) ∧
    (∀ pre mid post, cs = pre ++ mid ++ post → (∀ c ∈ mid, c.time ≠ none) →
      (∀ c ∈ mid, ∀ d ∈ mid, ∀ x y, c.time = some x → d.time = some y → y - x < syncIdleS) →
      ((stateAt cap cs pre.length).forwarded mid).card ≤ cap) ∧
    (∀ n icao now, cs[n]? = some (.offered icao now) →
      (stateAt cap cs n).answer (.offered icao now) = some false →
      (∀ m < n, ∀ s, cs[m]? = some (.onSync icao s) →
        (stateAt cap cs m).answer (.onSync icao s) = some true) →
      isIcaoText icao = false ∨ icao ∈ (stateAt cap cs n).requested ∨
        maxRequested ≤ (stateAt cap cs n).requested.card) ∧
    (∀ m n icao s now, m < n → cs[m]? = some (.onSync icao s) → cs[n]? = some (.offered icao now) →
      (stateAt cap cs m).answer (.onSync icao s) = some false →
      (stateAt cap cs n).answer (.offered icao now) = some true → s + suppressS ≤ now) := by
  have hbound (es : List (Call ℝ)) : (Run.exec step (new cap) es).Bounded :=
    Run.invariant (I := Bounded) (fun t c h => step_bounded h c) (new_bounded cap) es
  have hkeep (es : List (Call ℝ)) : (Run.exec step (new cap) es).cap = cap :=
    Run.invariant (I := fun t : Traffic ℝ => t.cap = cap) (fun t c h => by rwa [step_cap]) rfl es
  have hsync (es : List (Call ℝ)) : (Run.exec step (new cap) es).sync.len ≤ cap := by
    have h := (hbound es).sync
    rwa [hkeep] at h
  refine ⟨fun n => ⟨hsync _, (hbound _).requested⟩, ?_, ?_, ?_⟩
  · intro pre mid post hcs' hlost hwindow
    have hpre : stateAt cap cs pre.length = Run.exec step (new cap) pre := by
      rw [stateAt, hcs', List.append_assoc, List.take_left]
    have hnone : Places (fun x => ∃ c ∈ mid, c.time = some x) ∅ (stateAt cap cs pre.length) := by
      simp [Places]
    have hplaces :=
      Places.run (fun x y ⟨c, hc, hx⟩ ⟨d, hd, hy⟩ => hwindow d hd c hc y x hy hx) hnone
      (by rw [hkeep]; omega) hlost fun c hc now hnow => ⟨c, hc, hnow⟩
    rw [Finset.empty_union, hpre, ← Run.exec_append] at hplaces
    rw [hpre]
    refine (Finmap.card_le_len fun icao h => ?_).trans (hsync (pre ++ mid))
    obtain ⟨at', -, hl⟩ := hplaces icao h
    exact Finmap.mem_iff.2 ⟨at', hl⟩
  · intro n icao now hn hfalse hnever
    refine offered_refused (fun hin => ?_) (Option.some.inj hfalse)
    obtain ⟨since, hl⟩ := Finmap.mem_iff.1 hin
    rcases turnedAway_of_suppressed hl with h | ⟨m, hm, c, hc, rfl, haway⟩
    · cases h
    · have hmn : m < n := by
        rw [List.length_take] at hm
        omega
      rw [List.getElem?_take_of_lt hmn] at hc
      rw [List.take_take, Nat.min_eq_left (le_of_lt hmn)] at haway
      have h := hnever m hmn since hc
      rw [haway] at h
      cases h
  · intro m n icao s now hmn hm hn haway hstart
    by_contra hlt
    have hstopped := stopped_run hcs hmn hm hn rfl haway (not_le.1 hlt)
    have hrefused := hstopped.not_offered (not_le.1 hlt)
    rw [answer, hrefused] at hstart
    cases hstart

/-- A third aircraft at a cap of two, turned away. -/
theorem cap_holds_two :
    (stateAt 2 [.onSync "aa0001" (1 : ℝ), .onSync "aa0002" 1, .onSync "aa0003" 1] 3).sync.len ≤ 2 :=
  ((cap_holds 2 (by decide) _ (by simp [Nondecreasing, Call.time])).1 3).1

/-! ## The stopped and the others -/

/-- No suppressed aircraft is requested or holds a place of the sync set. -/
def Apart (t : Traffic F) : Prop :=
  ∀ icao ∈ t.suppressed, icao ∉ t.requested ∧ icao ∉ t.sync

/-- The call is not a pair of a suppressed aircraft that finds room. -/
def NoLatePlace (t : Traffic F) (c : Call F) : Prop :=
  ∀ icao now, c = .onSync icao now → t.cap ≠ 0 → icao ∈ t.suppressed → (t.hasRoom now).2 = false

theorem step_apart_iff {t : Traffic F} (ht : t.Apart) (c : Call F) :
    (t.step c).Apart ↔ t.NoLatePlace c := by
  have hbusy (now : F) : ∀ k ∈ t.suppressed, k ∉ t.busy now := fun k hk h =>
    (ht k hk).2 (t.mem_of_mem_busy now h)
  cases c with
  | lost icao =>
    refine iff_of_true (fun k hk => ?_) fun _ _ h => by cases h
    obtain ⟨h1, h2⟩ := ht k hk
    exact ⟨fun h => h1 (Finset.mem_of_mem_erase h), fun h => h2 (Finmap.mem_erase.1 h).2⟩
  | offered icao now =>
    refine iff_of_true ?_ fun _ _ h => by cases h
    rcases t.offered_cases icao now with ⟨h1, -⟩ | ⟨-, -, -, h1⟩ | ⟨-, -, sync, hsync, h1⟩
    · rw [step, h1]
      exact ht
    · rw [step, h1]
      exact fun k hk => ⟨(ht k hk).1, hbusy now k hk⟩
    · rw [step, h1]
      intro k hk
      obtain ⟨hne, hin⟩ := Finmap.mem_erase.1 hk
      refine ⟨fun h => (Finset.mem_insert.1 h).elim hne (ht k hin).1, ?_⟩
      rcases hsync with rfl | rfl
      · exact (ht k hin).2
      · exact hbusy now k hin
  | onSync icao now =>
    rcases t.onSync_cases icao now with
      ⟨h0, h1⟩ | ⟨h0, hin, h1⟩ | ⟨h0, hnot, hroom, h1⟩ | ⟨h0, hnot, hroom, h1⟩
    · rw [step, h1]
      refine iff_of_true ht fun k now' hc hcap => absurd h0 hcap
    · rw [step, h1]
      refine iff_of_true (fun k hk => ⟨(ht k hk).1, fun h => ?_⟩) ?_
      · rcases Finmap.mem_insert.1 h with rfl | h
        · exact (ht k hk).2 hin
        · exact (ht k hk).2 h
      · intro k now' hc _ hk
        cases hc
        exact absurd hin (ht icao hk).2
    · rw [step, h1]
      constructor
      · intro h k now' hc _ hk
        cases hc
        exact absurd (Finmap.mem_insert.2 (Or.inl rfl)) (h icao hk).2
      · intro h k hk
        refine ⟨(ht k hk).1, fun hs => ?_⟩
        rcases Finmap.mem_insert.1 hs with rfl | hs
        · have hfull := h k now rfl h0 hk
          rw [hasRoom_eq] at hfull
          exact of_decide_eq_false hfull (Or.inr hroom)
        · exact hbusy now k hk hs
    · rw [step, h1]
      refine iff_of_true ?_ ?_
      · intro k hk
        rcases Finmap.mem_insert.1 hk with rfl | hk
        · exact ⟨Finset.notMem_erase k _, fun h => hnot (t.mem_of_mem_busy now h)⟩
        · obtain ⟨since, hl, -⟩ := Finmap.mem_retain.1 hk
          have hk : k ∈ t.suppressed := Finmap.mem_iff.2 ⟨since, hl⟩
          exact ⟨fun h => (ht k hk).1 (Finset.mem_of_mem_erase h), hbusy now k hk⟩
      · intro k now' hc _ hk
        cases hc
        rw [hasRoom_eq]
        exact decide_eq_false (not_or.2 ⟨h0, hroom⟩)

/-- **A stopped aircraft is in no other set**, in exactly the runs where no pair of a suppressed
    aircraft finds room. -/
theorem apart_iff (cap : ℕ) (cs : List (Call F)) :
    (∀ n, (stateAt cap cs n).Apart) ↔ Run.Steps step NoLatePlace (new cap) cs :=
  Run.forall_take_iff_steps (I := fun _ => True) (P := Apart) (A := fun _ => True)
    (fun _ _ _ _ _ _ => trivial) (fun _ c _ _ ht => step_apart_iff ht c) trivial
    (fun _ h => absurd h Finmap.notMem_empty) fun _ _ => trivial

/-- A pair is turned away; the aircraft holding the place fades; a pair still in flight arrives. -/
def latePair : List (Call ℚ) :=
  [.onSync "aa0001" 0, .onSync "aa0002" 1, .lost "aa0001", .onSync "aa0002" 2]

/-- The stopped aircraft takes the only place, and an offer to restart it is refused. -/
theorem late_pair_takes_place :
    ¬ (stateAt 1 latePair 4).Apart ∧ "aa0002" ∈ (stateAt 1 latePair 4).sync ∧
      (stateAt 1 latePair 4).answer (.offered "aa0002" 3) = some false := by
  have hstopped : "aa0002" ∈ (stateAt 1 latePair 4).suppressed := by decide +kernel
  have hheld : "aa0002" ∈ (stateAt 1 latePair 4).sync := by decide +kernel
  exact ⟨fun h => (h "aa0002" hstopped).2 hheld, hheld, by decide +kernel⟩

end Traffic

end Mlatd
