/-
  The routes of solve_group over drift-only clocks (state.rs): every conversion along usable models
  gives the reference's reading of the arrival itself, whatever hops it takes, and the training of
  a shared event leaves all pairs on their clocks' lines.
-/
import Mlatd.ClockDomain.Jump

namespace Mlatd

/-! ## Routes -/

/-- The best of several routes is one of them, and there is one if any of them is there. -/
theorem State.foldl_keepBetter {α F : Type} [F64 F] (f : α → Option (F × F)) (as : List α)
    (best : Option (F × F)) :
    let r := as.foldl (fun best a => State.keepBetter best (f a)) best
    (∀ c, r = some c → best = some c ∨ ∃ a ∈ as, f a = some c) ∧
      (r = none → best = none ∧ ∀ a ∈ as, f a = none) := by
  induction as generalizing best with
  | nil => exact ⟨fun c h => Or.inl h, fun h => ⟨h, fun a ha => by cases ha⟩⟩
  | cons a as ih =>
    have hkeep : (∀ c, State.keepBetter best (f a) = some c → best = some c ∨ f a = some c) ∧
        (State.keepBetter best (f a) = none → best = none ∧ f a = none) := by
      unfold State.keepBetter
      cases hf : f a with
      | none => exact ⟨fun c h => Or.inl h, fun h => ⟨h, rfl⟩⟩
      | some n =>
        cases best with
        | none => exact ⟨fun c h => Or.inr h, fun h => by cases h⟩
        | some b =>
          simp only
          split
          · exact ⟨fun c h => Or.inr h, fun h => by cases h⟩
          · exact ⟨fun c h => Or.inl h, fun h => by cases h⟩
    obtain ⟨h1, h2⟩ := ih (State.keepBetter best (f a))
    refine ⟨fun c h => ?_, fun h => ?_⟩
    · rcases h1 c h with h3 | ⟨a', ha', h3⟩
      · exact (hkeep.1 c h3).imp_right fun h4 => ⟨a, List.mem_cons_self, h4⟩
      · exact Or.inr ⟨a', List.mem_cons_of_mem _ ha', h3⟩
    · obtain ⟨h3, h4⟩ := h2 h
      obtain ⟨h5, h6⟩ := hkeep.2 h3
      refine ⟨h5, fun a' ha' => ?_⟩
      rcases List.mem_cons.1 ha' with rfl | h7
      · exact h6
      · exact h4 a' h7

namespace State

/-- Every pair of the state was trained by readings of common instants of the two clocks. -/
def DriftOnly (clock : ℕ → Clock) (s : State ℝ) : Prop :=
  ∀ k p, s.pairs.lookup k = some p → ∃ Ts, p = PairModel.train (clock k.1) (clock k.2) Ts

/-- The model from slot `a` to slot `b` is there and usable. -/
def usablePair (s : State ℝ) (a b : ℕ) : Prop :=
  ∃ p, s.pairs.lookup (a, b) = some p ∧ p.usable = true

section
variable {clock : ℕ → Clock} {s : State ℝ}

/-- A push of a common instant is accepted and keeps every pair so trained. -/
theorem pushPair_driftOnly (hs : DriftOnly clock s) (a b : ℕ) (T : ℝ) :
    (s.pushPair a b ((clock a).read T) ((clock b).read T)).2 = true ∧
      DriftOnly clock (s.pushPair a b ((clock a).read T) ((clock b).read T)).1 := by
  have htrained : ∃ Ts, (s.pairs.lookup (a, b)).getD PairModel.default =
      PairModel.train (clock a) (clock b) Ts := by
    cases hp : s.pairs.lookup (a, b) with
    | none => exact ⟨[], rfl⟩
    | some p => exact hs (a, b) p hp
  obtain ⟨Ts, hTs⟩ := htrained
  unfold pushPair
  rw [hTs]
  refine ⟨PairModel.push_train _ _ Ts T, fun k p hk => ?_⟩
  simp only [Finmap.lookup_insert_ite] at hk
  split at hk
  · next hab =>
    cases hk
    refine ⟨Ts ++ [T], ?_⟩
    rw [hab, PairModel.train_concat]
  · exact hs k p hk

/-- A shared event trains both directions of a pair; the shard accepts both. -/
theorem trainOnce_driftOnly (hs : DriftOnly clock s) (icao : Icao) (rx rx2 : ℕ) (T : ℝ) :
    DriftOnly clock (s.trainOnce icao rx rx2 ((clock rx).read T) ((clock rx2).read T)) :=
  (pushPair_driftOnly (pushPair_driftOnly hs rx rx2 T).2 rx2 rx T).2

/-- A report that joins reports of the same two instants keeps every pair so trained. -/
theorem trainSync_driftOnly (hs : DriftOnly clock s) (now : Instant) (rx : ℕ) (icao : Icao)
    (key : String × String) (Te To : ℝ)
    (hr : ∀ o ∈ (s.syncpointAt now key).reporters,
      o.2.1 = (clock o.1).read Te ∧ o.2.2 = (clock o.1).read To) :
    DriftOnly clock
      (s.trainSync now rx icao key ((clock rx).read Te) ((clock rx).read To)) := by
  have hfold : ∀ (others : List (ℕ × ℝ × ℝ)) (t : State ℝ), DriftOnly clock t →
      (∀ o ∈ others, o.2.1 = (clock o.1).read Te ∧ o.2.2 = (clock o.1).read To) →
      DriftOnly clock
        (others.foldl (trainPair icao rx ((clock rx).read Te) ((clock rx).read To)) t) := by
    intro others
    induction others with
    | nil => exact fun t ht _ => ht
    | cons o others ih =>
      intro t ht ho
      refine ih _ ?_ fun o' ho' => ho o' (List.mem_cons_of_mem _ ho')
      obtain ⟨rx2, te2, to2⟩ := o
      obtain ⟨he, hodd⟩ := ho _ List.mem_cons_self
      simp only at he hodd
      simp only [trainPair]
      split
      · exact ht
      · rw [he, hodd]
        exact trainOnce_driftOnly (trainOnce_driftOnly ht icao rx rx2 Te) icao rx rx2 To
  simp only [trainSync]
  split
  · exact hs
  · exact hfold _ _ hs hr

theorem convertPair_exact (hs : DriftOnly clock s) {a b : ℕ} {x : ℝ} {c : ℝ × ℝ}
    (h : s.convertPair a b x = some c) : c = ((clock a).carry (clock b) x, 0) := by
  unfold convertPair at h
  obtain ⟨p, hp, hc⟩ := Option.bind_eq_some_iff.1 h
  obtain ⟨Ts, rfl⟩ := hs (a, b) p hp
  rw [PairModel.convert_train] at hc
  split at hc
  · exact (Option.some.inj hc).symm
  · cases hc

theorem convertPair_none (hs : DriftOnly clock s) {a b : ℕ} {x : ℝ}
    (h : s.convertPair a b x = none) : ¬ s.usablePair a b := by
  rintro ⟨p, hp, hu⟩
  unfold convertPair at h
  rw [hp, Option.bind_some] at h
  obtain ⟨Ts, rfl⟩ := hs (a, b) p hp
  rw [PairModel.convert_train, if_pos hu] at h
  cases h

/-- Two hops carry a reading as one would. -/
theorem route_exact (hs : DriftOnly clock s) {rx ref h : ℕ} {T : ℝ} {c : ℝ × ℝ}
    (hc : s.route rx ref ((clock rx).read T) h = some c) : c.1 = (clock ref).read T := by
  unfold route at hc
  split at hc
  · cases hc
  · cases h1 : s.convertPair rx h ((clock rx).read T) with
    | none =>
      rw [h1] at hc
      cases hc
    | some c1 =>
      have hc1 := convertPair_exact hs h1
      rw [Clock.carry_read] at hc1
      rw [h1, hc1] at hc
      cases h2 : s.convertPair h ref ((clock h).read T) with
      | none =>
        simp only [h2] at hc
        cases hc
      | some c2 =>
        have hc2 := convertPair_exact hs h2
        rw [Clock.carry_read] at hc2
        simp only [h2, hc2, Option.some.injEq] at hc
        rw [← hc]

theorem route_none (hs : DriftOnly clock s) {rx ref h : ℕ} {x : ℝ}
    (hc : s.route rx ref x h = none) (h1 : h ≠ rx) (h2 : h ≠ ref) :
    ¬ (s.usablePair rx h ∧ s.usablePair h ref) := by
  rintro ⟨hu1, hu2⟩
  unfold route at hc
  rw [if_neg (not_or.2 ⟨h1, h2⟩)] at hc
  cases h3 : s.convertPair rx h x with
  | none => exact convertPair_none hs h3 hu1
  | some c1 =>
    cases h4 : s.convertPair h ref c1.1 with
    | none => exact convertPair_none hs h4 hu2
    | some c2 =>
      rw [h3] at hc
      simp only [h4] at hc
      cases hc

/-- However a reading reaches the reference, it arrives as the reference's own. -/
theorem toRef_exact (hs : DriftOnly clock s) {members : List ℕ} {ref rx : ℕ} {T : ℝ}
    {c : ℝ × ℝ} (hc : s.toRef members ref rx ((clock rx).read T) = some c) :
    c.1 = (clock ref).read T := by
  unfold toRef at hc
  split at hc
  · next hrx =>
    cases hc
    rw [hrx]
  · cases h1 : s.convertPair rx ref ((clock rx).read T) with
    | some d =>
      rw [h1] at hc
      cases hc
      rw [convertPair_exact hs h1, Clock.carry_read]
    | none =>
      rw [h1] at hc
      rcases (foldl_keepBetter _ members none).1 c hc with h2 | ⟨h, -, h2⟩
      · cases h2
      · exact route_exact hs h2

theorem toRef_none (hs : DriftOnly clock s) {members : List ℕ} {ref rx : ℕ} {x : ℝ}
    (hc : s.toRef members ref rx x = none) :
    rx ≠ ref ∧ ¬ s.usablePair rx ref ∧
      ∀ h ∈ members, h ≠ rx → h ≠ ref → ¬ (s.usablePair rx h ∧ s.usablePair h ref) := by
  unfold toRef at hc
  split at hc
  · cases hc
  · next hrx =>
    cases h1 : s.convertPair rx ref x with
    | some d =>
      rw [h1] at hc
      cases hc
    | none =>
      rw [h1] at hc
      have h2 := ((foldl_keepBetter _ members none).2 hc).2
      exact ⟨hrx, convertPair_none hs h1, fun h hh => route_none hs (h2 h hh)⟩

end

/-- **Conversion is exact on drift-only clocks**: no reading of a common instant is refused, what
    a group's conversion yields for an arrival at `T` is the reference's reading of `T`, and an
    arrival is left out only where no direct model and no two hops are usable. -/
theorem conversion_exact (clock : ℕ → Clock) (s : State ℝ) (hs : DriftOnly clock s)
    (g : Group ℝ) :
    let ref := s.electRef g.members
    (∀ i j Ts T, ((PairModel.train (clock i) (clock j) Ts).push
      ((clock i).read T) ((clock j).read T)).2 = true) ∧
    (∀ a ∈ s.conv g, ∃ e ∈ g.entries, s.convEntry g.members ref e = some a ∧ a.rx = e.1 ∧
      ∀ T, e.2.1 = (clock e.1).read T → a.t = (clock ref).read T) ∧
    (∀ e ∈ g.entries, (∃ a ∈ s.conv g, s.convEntry g.members ref e = some a) ∨
      e.1 ≠ ref ∧ ¬ s.usablePair e.1 ref ∧
        ∀ h ∈ g.members, h ≠ e.1 → h ≠ ref →
          ¬ (s.usablePair e.1 h ∧ s.usablePair h ref)) := by
  intro ref
  refine ⟨fun i j Ts T => PairModel.push_train _ _ Ts T, fun a ha => ?_, fun e he => ?_⟩
  · obtain ⟨e, he, hc⟩ := List.mem_filterMap.1 ha
    refine ⟨e, he, hc, ?_⟩
    obtain ⟨c, h1, rfl⟩ := Option.map_eq_some_iff.1 hc
    refine ⟨rfl, fun T hT => ?_⟩
    rw [hT] at h1
    exact toRef_exact hs h1
  · cases hc : s.convEntry g.members ref e with
    | some a => exact Or.inl ⟨a, List.mem_filterMap.2 ⟨e, he, hc⟩, rfl⟩
    | none => exact Or.inr (toRef_none hs (Option.map_eq_none_iff.1 hc))

/-! ## Four receivers -/

/-- A receiver `i` seconds off that gains `i` seconds a second. -/
def gaining (i : ℕ) : Clock :=
  { offset := i, rate := 1 + i, rate_pos := by positivity }

/-- The model of the clock of slot `b` in that of slot `a`, after nine readings. -/
noncomputable def nineTold (a b : ℕ) : PairModel ℝ :=
  PairModel.train (gaining a) (gaining b) PairModel.seconds

/-- Slots 1 and 2 are known in the clock of slot 0, slot 3 in that of slot 1 only. -/
noncomputable def fourKnown : State ℝ :=
  { State.new 0 1 false false (0, 0) 0 with
    pairs := ((∅ : HashMap (ℕ × ℕ) (PairModel ℝ)).insert (1, 0) (nineTold 1 0)).insert (2, 0)
      (nineTold 2 0) |>.insert (3, 1) (nineTold 3 1) }

/-- An arrival at second 3, by the clocks of all four. -/
noncomputable def heardByFour : Group ℝ :=
  { created := 0, icao := ⟨0x40621d⟩, df17 := false
    entries := [0, 1, 2, 3].map fun i => (i, (gaining i).read 3, 0) }

theorem lookup_fourKnown (k : ℕ × ℕ) : fourKnown.pairs.lookup k =
    if k = (3, 1) then some (nineTold 3 1) else if k = (2, 0) then some (nineTold 2 0)
    else if k = (1, 0) then some (nineTold 1 0) else none := by
  unfold fourKnown
  simp only [Finmap.lookup_insert_ite, Finmap.lookup_empty]

theorem usable_nineTold (a b : ℕ) : (nineTold a b).usable = true :=
  PairModel.usable_seconds (le_add_of_nonneg_right (Nat.cast_nonneg a))

theorem fourKnown_driftOnly : DriftOnly gaining fourKnown := by
  intro k p hk
  rw [lookup_fourKnown] at hk
  split_ifs at hk with h h h <;> cases hk <;> exact ⟨PairModel.seconds, by rw [h]; rfl⟩

theorem members_heardByFour : heardByFour.members = [0, 1, 2, 3] := rfl

/-- Slot 0 is elected: two models lead to it. -/
theorem electRef_fourKnown : fourKnown.electRef heardByFour.members = 0 := by
  have hscore : ∀ cand ∈ [0, 1, 2, 3], fourKnown.refScore [0, 1, 2, 3] cand =
      if cand = 0 then 2 else if cand = 1 then 1 else 0 := by
    intro cand hc
    unfold refScore
    simp only [lookup_fourKnown]
    simp only [List.mem_cons, List.not_mem_nil, or_false] at hc
    rcases hc with rfl | rfl | rfl | rfl <;> simp [usable_nineTold]
  have hmax : [0, 1, 2, 3].reverse.argmax (fourKnown.refScore [0, 1, 2, 3]) = some 0 := by
    rw [List.argmax_eq_some_iff]
    have hzero : fourKnown.refScore [0, 1, 2, 3] 0 = 2 := hscore 0 (by decide)
    refine ⟨by decide, fun c hc => ?_, fun c hc hle => ?_⟩
    · rw [hscore c (List.mem_reverse.1 hc), hzero]
      split_ifs <;> omega
    · have h0 : c = 0 := by
        rw [hscore c (List.mem_reverse.1 hc), hzero] at hle
        split_ifs at hle <;> omega
      rw [h0]
  unfold electRef
  rw [members_heardByFour, hmax]
  rfl

/-- The second reaches the reference by its own model and the fourth over the second, each with the
    reference's reading of the arrival. -/
theorem conversion_exact_gaining :
    fourKnown.electRef heardByFour.members = 0 ∧ fourKnown.pairs.lookup (3, 0) = none ∧
      ∀ e ∈ heardByFour.entries, ∃ a ∈ fourKnown.conv heardByFour,
        a.rx = e.1 ∧ a.t = (gaining 0).read 3 := by
  have href := electRef_fourKnown
  obtain ⟨-, hexact, hreach⟩ := conversion_exact gaining fourKnown fourKnown_driftOnly heardByFour
  rw [href] at hexact hreach
  have husable {i j : ℕ} (h : fourKnown.pairs.lookup (i, j) = some (nineTold i j)) :
      fourKnown.usablePair i j := ⟨_, h, usable_nineTold i j⟩
  refine ⟨href, by rw [lookup_fourKnown]; rfl, fun e he => ?_⟩
  rcases hreach e he with ⟨a, ha, hconv⟩ | ⟨hne, hdirect, hhops⟩
  · obtain ⟨e', he', hconv', hrx, ht⟩ := hexact a ha
    have hrx' : a.rx = e.1 := by
      obtain ⟨c, -, rfl⟩ := Option.map_eq_some_iff.1 hconv
      rfl
    refine ⟨a, ha, hrx', ht 3 ?_⟩
    obtain ⟨i, -, rfl⟩ := List.mem_map.1 he'
    rfl
  · exfalso
    obtain ⟨i, hi, rfl⟩ := List.mem_map.1 he
    simp only [List.mem_cons, List.not_mem_nil, or_false] at hi
    rcases hi with rfl | rfl | rfl | rfl
    · exact hne rfl
    · exact hdirect (husable (by rw [lookup_fourKnown]; rfl))
    · exact hdirect (husable (by rw [lookup_fourKnown]; rfl))
    · exact hhops 1 (by rw [members_heardByFour]; simp) (by decide) (by decide)
        ⟨husable (by rw [lookup_fourKnown]; rfl), husable (by rw [lookup_fourKnown]; rfl)⟩

end State

end Mlatd
