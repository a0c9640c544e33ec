/-
  The two representations of a track agree.

  The warm start and the speed gate read the track, the 4-receiver gate reads the fixes of the
  log. `Memory.Agrees` says that the two hold the same last fix, that the fixes are in order and
  within the fit window, and that the refusals stay below the reset. Every act at a time no
  earlier than the fixes keeps it (`Agrees.step`), hence every run of a shard whose output clock
  does not go back.
-/
import Mlatd.Lib.Exact
import Mlatd.Tracks.Memory

namespace Mlatd

open F64

variable {F : Type} [F64 F]

/-! ## Fixes that leave -/

theorem trimFixes_suffix (now : F) (fs : List (Fix F)) : State.trimFixes now fs <:+ fs := by
  fun_induction State.trimFixes now fs with
  | case1 f g h fs _ ih => exact ih.trans (List.suffix_cons f _)
  | case2 f g h fs _ => exact List.suffix_refl _
  | case3 fs _ => exact List.suffix_refl _

/-- The newest fix stays. -/
theorem trimFixes_getLast? (now : F) (fs : List (Fix F)) :
    (State.trimFixes now fs).getLast? = fs.getLast? := by
  fun_induction State.trimFixes now fs with
  | case1 f g h fs _ ih => rw [ih, List.getLast?_cons_cons (a := f)]
  | case2 f g h fs _ => rfl
  | case3 fs _ => rfl

/-- Beyond the last two, no fix that stays is older than the window. -/
theorem trimFixes_window [Ordered F] (now : F) (fs : List (Fix F))
    (hs : fs.Pairwise fun f g => f.t ≤ g.t) (i : ℕ) (f : Fix F) (hf : (State.trimFixes now fs)[i]? = some f)
    (hi : i + 2 < (State.trimFixes now fs).length) : now - f.t ≤ fitWindowS := by
  fun_induction State.trimFixes now fs with
  | case1 a b c fs _ ih => exact ih (List.pairwise_cons.1 hs).2 hf hi
  | case2 a b c fs hold =>
    have ha : a.t ≤ f.t := by
      cases i with
      | zero =>
        rw [← Option.some.inj hf]
        exact Ordered.le_refl _
      | succ i => exact (List.pairwise_cons.1 hs).1 f (List.mem_of_getElem? hf)
    exact Ordered.le_trans (Ordered.sub_le_sub_left ha now) (Ordered.le_of_not_lt hold)
  | case3 fs hshort =>
    match fs with
    | [] => simp at hi
    | [a] => simp at hi
    | [a, b] => simp at hi
    | a :: b :: c :: fs => exact absurd rfl (hshort a b c fs)

/-! ## One aircraft -/

namespace Memory

/-- The track and the fixes tell the same story. -/
structure Agrees (m : Memory F) : Prop where
  last_iff : (∃ t p, m.track = some t ∧ t.lastPos = some p) ↔ m.fixes ≠ []
  newest : ∀ f, m.fixes.getLast? = some f →
    ∃ t, m.track = some t ∧ t.lastPos = some f.pos ∧ t.lastTimeScaled = f.t
  sorted : m.fixes.Pairwise fun f g => f.t ≤ g.t
  /-- beyond the last two, none is older than the window before the newest -/
  window : ∀ i f g, m.fixes[i]? = some f → i + 2 < m.fixes.length →
    m.fixes.getLast? = some g → g.t - f.t ≤ fitWindowS
  rejects : ∀ t, m.track = some t → t.speedRejects < 5

namespace Agrees

theorem blank : Agrees (F := F) ⟨none, []⟩ where
  last_iff := by simp
  newest := nofun
  sorted := List.Pairwise.nil
  window := nofun
  rejects := nofun

theorem entry_rejects {m : Memory F} (h : Agrees m) : m.entry.speedRejects < 5 := by
  unfold entry
  cases ht : m.track with
  | none => exact Nat.zero_lt_succ 4
  | some t => exact h.rejects t ht

/-- A track replaced by one with the same last fix. -/
theorem replace {m : Memory F} (h : Agrees m) {t : Track F} (hpos : t.lastPos = m.entry.lastPos)
    (htime : t.lastTimeScaled = m.entry.lastTimeScaled) (hrej : t.speedRejects < 5) :
    Agrees ⟨some t, m.fixes⟩ := by
  have hentry : ∀ p, t.lastPos = some p ↔ ∃ u, m.track = some u ∧ u.lastPos = some p := by
    intro p
    rw [hpos]
    unfold entry
    cases m.track with
    | none => simp [Track.default]
    | some u => simp
  refine ⟨?_, ?_, h.sorted, h.window, ?_⟩
  · rw [← h.last_iff]
    constructor
    · rintro ⟨u, p, hu, hp⟩
      obtain rfl : t = u := Option.some.inj hu
      obtain ⟨v, hv, hvp⟩ := (hentry p).1 hp
      exact ⟨v, p, hv, hvp⟩
    · rintro ⟨u, p, hu, hp⟩
      exact ⟨t, p, rfl, (hentry p).2 ⟨u, hu, hp⟩⟩
  · intro f hf
    obtain ⟨u, hu, hup, hut⟩ := h.newest f hf
    refine ⟨t, rfl, (hentry f.pos).2 ⟨u, hu, hup⟩, ?_⟩
    rw [htime, ← hut]
    unfold entry
    rw [hu]
    rfl
  · intro u hu
    obtain rfl : t = u := Option.some.inj hu
    exact hrej

/-- A track without a position beside no fixes. -/
theorem reset {t : Track F} (hpos : t.lastPos = none) (hrej : t.speedRejects < 5) :
    Agrees ⟨some t, []⟩ where
  last_iff := by simp [hpos]
  newest := nofun
  sorted := List.Pairwise.nil
  window := nofun
  rejects u hu := Option.some.inj hu ▸ hrej

/-- A fix booked in both, at a time no earlier than the fixes there are. -/
theorem book [Ordered F] {fixes : List (Fix F)} (hs : fixes.Pairwise fun f g => f.t ≤ g.t) {t : Track F}
    (new : Fix F) (hnew : ∀ f ∈ fixes, f.t ≤ new.t) (hpos : t.lastPos = some new.pos)
    (htime : t.lastTimeScaled = new.t) (hrej : t.speedRejects < 5) :
    Agrees ⟨some t, State.trimFixes new.t (fixes ++ [new])⟩ := by
  have hs' : (fixes ++ [new]).Pairwise fun f g => f.t ≤ g.t := by
    rw [List.pairwise_append]
    refine ⟨hs, List.pairwise_singleton _ _, fun f hf g hg => ?_⟩
    rw [List.mem_singleton.1 hg]
    exact hnew f hf
  have hlast : (State.trimFixes new.t (fixes ++ [new])).getLast? = some new := by
    rw [trimFixes_getLast?, List.getLast?_concat]
  refine ⟨?_, ?_, hs'.sublist (trimFixes_suffix new.t _).sublist, ?_, ?_⟩
  · have hne : State.trimFixes new.t (fixes ++ [new]) ≠ [] := by
      intro h
      rw [h] at hlast
      cases hlast
    exact ⟨fun _ => hne, fun _ => ⟨t, new.pos, rfl, hpos⟩⟩
  · intro f hf
    obtain rfl : f = new := Option.some.inj (hf.symm.trans hlast)
    exact ⟨t, rfl, hpos, htime⟩
  · intro i f g hf hi hg
    obtain rfl : g = new := Option.some.inj (hg.symm.trans hlast)
    exact trimFixes_window g.t _ hs' i f hf hi
  · intro u hu
    exact Option.some.inj hu ▸ hrej

/-- Every act at a time no earlier than the fixes keeps the agreement. -/
theorem step [Ordered F] {m : Memory F} (h : Agrees m) (act : Act F)
    (hclock : ∀ x, act.clock = some x → ∀ f ∈ m.fixes, f.t ≤ x) : Agrees (m.step act) := by
  cases act with
  | idle => exact h
  | forget => exact blank
  | enter => exact h.replace rfl rfl h.entry_rejects
  | attempt gated now =>
    refine h.replace (stamped_lastPos _ _ _) (stamped_lastTimeScaled _ _ _) ?_
    rw [stamped_speedRejects]
    exact h.entry_rejects
  | tooFast gated now =>
    unfold Memory.step
    simp only
    split
    · exact reset rfl (Nat.zero_lt_succ 4)
    · next hfew =>
      refine h.replace (stamped_lastPos _ _ _) (stamped_lastTimeScaled _ _ _) ?_
      simp only
      omega
  | publish gated now pos errM =>
    exact book h.sorted ⟨now, pos, errM⟩ (hclock now rfl) rfl rfl (Nat.zero_lt_succ 4)

end Agrees

/-- A fix after an act was there, or is of the act's time. -/
theorem mem_fixes_step (m : Memory F) (act : Act F) {f : Fix F} (hf : f ∈ (m.step act).fixes) :
    f ∈ m.fixes ∨ act.clock = some f.t := by
  cases act with
  | idle | enter | attempt gated now => exact Or.inl hf
  | forget => cases hf
  | tooFast gated now =>
    unfold Memory.step at hf
    simp only at hf
    split at hf
    · cases hf
    · exact Or.inl hf
  | publish gated now pos errM =>
    rcases List.mem_append.1 ((trimFixes_suffix now _).subset hf) with h | h
    · exact Or.inl h
    · rw [List.mem_singleton.1 h]
      exact Or.inr rfl

end Memory

/-! ## Runs -/

namespace Turn

/-- A run of turns keeps the agreement, when its readings come after every fix and in order. -/
theorem agrees_exec [Ordered F] (env : Env F) (ts : List (Turn F)) {s : State F} {k : Icao}
    (h : (s.memoryOf k).Agrees)
    (hafter : ∀ f ∈ (s.memoryOf k).fixes, ∀ x ∈ readings s ts, f.t ≤ x)
    (hclock : (readings s ts).Pairwise (· ≤ ·)) :
    ((Run.exec (Turn.step env) s ts).memoryOf k).Agrees := by
  induction ts generalizing s with
  | nil => exact h
  | cons t ts ih =>
    have hreading : ∀ x, (t.act env s k).clock = some x → x ∈ readings s (t :: ts) := fun x hx =>
      (mem_readings_cons s).2 (Or.inl (act_clock env s t k hx))
    have hlater : ∀ x, (t.act env s k).clock = some x → ∀ y ∈ readings s ts, x ≤ y := by
      intro x hx y hy
      have hx := act_clock env s t k hx
      obtain ⟨now, hnow, rfl⟩ := Option.map_eq_some_iff.1 hx
      unfold readings at hclock hy
      rw [List.filterMap_cons_some hnow, List.map_cons] at hclock
      exact (List.pairwise_cons.1 hclock).1 y hy
    have hrest : (readings s ts).Pairwise (· ≤ ·) := by
      refine hclock.sublist ?_
      unfold readings
      exact ((List.sublist_cons_self t ts).filterMap _).map _
    rw [Run.exec_cons]
    apply ih
    · rw [memoryOf_step]
      exact h.step _ fun x hx f hf => hafter f hf x (hreading x hx)
    · intro f hf x hx
      rw [readings_step] at hx
      rw [memoryOf_step] at hf
      rcases Memory.mem_fixes_step _ _ hf with h1 | h1
      · exact hafter f h1 x ((mem_readings_cons s).2 (Or.inr hx))
      · exact hlater f.t h1 x hx
    · rw [readings_step]
      exact hrest

/-- A machine clock that does not go back gives such an output clock. -/
theorem readings_pairwise {s : State ℝ} (hscale : 0 ≤ s.timeScale) {ts : List (Turn ℝ)}
    (h : (ts.filterMap Turn.clock).Pairwise (· ≤ ·)) : (readings s ts).Pairwise (· ≤ ·) := by
  refine h.map _ ?_
  intro a b hab
  have h1 : a - s.t0Real ≤ b - s.t0Real := Nat.sub_le_sub_right hab _
  have h2 : (F64.ofNanos (a - s.t0Real) : ℝ) ≤ F64.ofNanos (b - s.t0Real) := by
    rw [F64.real_ofNanos, F64.real_ofNanos]
    gcongr
  exact add_le_add_right (mul_le_mul_of_nonneg_right h2 hscale) _

end Turn

/-- In every state of a run, also within a sweep, the track of each aircraft and the fixes of its
    log agree, when the output clock does not go back. -/
theorem Shard.tracks_agree [Ordered F] (env : Env F) (c : Config F) (es : List (Event F))
    (hclock : (Turn.readings (boot c) (turns env (boot c) es)).Pairwise (· ≤ ·)) (n : ℕ) (k : Icao) :
    ((Run.exec (Turn.step env) (boot c) ((turns env (boot c) es).take n)).memoryOf k).Agrees := by
  refine Turn.agrees_exec env _ Memory.Agrees.blank (fun f hf => by cases hf) ?_
  refine hclock.sublist ?_
  unfold Turn.readings
  exact ((List.take_sublist n _).filterMap _).map _

/-- The shard of five reports: after its last turn there is a fix in both. -/
theorem Shard.tracks_agree_five :
    let s := Run.exec (Turn.step Sample.fitting) (boot Sample.config)
      ((turns Sample.fitting (boot Sample.config) Sample.fiveReport).take 35)
    (s.memoryOf ⟨0x4ca7e8⟩).Agrees ∧ (s.memoryOf ⟨0x4ca7e8⟩).fixes.length = 1 := by
  have hrun :
      (Turn.readings (boot Sample.config)
        (turns Sample.fitting (boot Sample.config) Sample.fiveReport)).Pairwise (· ≤ ·) ∧
      ((Run.exec (Turn.step Sample.fitting) (boot Sample.config)
        ((turns Sample.fitting (boot Sample.config) Sample.fiveReport).take 35)).memoryOf
          ⟨0x4ca7e8⟩).fixes.length = 1 := by
    decide +kernel
  exact ⟨Shard.tracks_agree Sample.fitting Sample.config Sample.fiveReport hrun.1 35 _, hrun.2⟩

end Mlatd
